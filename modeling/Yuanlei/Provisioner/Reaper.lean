import Mathlib.Data.Rat.Init
import Mathlib.Algebra.Order.Ring.Rat
import Yuanlei.Provisioner.Barrier

/-!
# The idle reaper and the requests around it

The model of `SandboxIdleReaper` with its two maps, and of the requests that
write them, as one system over the deletion barrier.  A request records its
policy and its activity in two separate critical sections of the reaper's lock:
get, touch and proxy requests while they hold their pin, create after it has
released its pin.  A terminal WebSocket does the same and takes no pin.  The
reaper collects expired entries, and for each of them begins a deletion, checks
the entry once more under its lock and asks the backend to remove the generation
it saw.

The backend is a table of live containers.  A create or discover returns the
record of the container, puts a new container in its place (create only), or
fails, possibly after having removed it; a delete is fenced by its expected
generation.  Every container has a generation of its own.

Main results:

- `step`: one step of requests, deletions, reaper and clock.
- `reapsIdle`: what a removal by the reaper and the response of a
  create request have to satisfy.
-/

namespace Yuanlei.Provisioner

/-! ## SandboxIdleReaper -/

/-- The `lifecycle` of a create request. -/
inductive Lifecycle where
  | ephemeral
  | persistent
  | resident
  deriving DecidableEq

/-- What the reaper reads of a `SandboxRecord`; the id is the key of the backend's table. -/
structure SandboxRecord where
  generation : Nat
  lifecycle : Option Lifecycle
  idleTimeoutSeconds : Option Nat
  deriving DecidableEq

/-- `_record_timeout`: `none` stands for the global threshold, zero for never. -/
def SandboxRecord.recordTimeout (record : SandboxRecord) : Option Nat :=
  match record.idleTimeoutSeconds with
  | some timeout => some timeout
  | none => if record.lifecycle = some .resident then some 0 else none

structure SandboxIdleReaper where
  lastActivityAt : Table String (Option Nat × ℚ)
  idleTimeouts : Table String (Option Nat)

namespace SandboxIdleReaper

def initial : SandboxIdleReaper where
  lastActivityAt := Table.empty
  idleTimeouts := Table.empty

variable (reaper : SandboxIdleReaper) (idleTimeoutSeconds : Int)

/-- A touch without a generation keeps the one on record. -/
def touch (sandboxId : String) (generation : Option Nat) (now : ℚ) : SandboxIdleReaper :=
  let current := reaper.lastActivityAt.get sandboxId
  let observedGeneration := generation.or (current.bind (·.1))
  { reaper with
    lastActivityAt := reaper.lastActivityAt.upsert sandboxId (observedGeneration, now) }

def remember (sandboxId : String) (record : SandboxRecord) : SandboxIdleReaper :=
  { reaper with idleTimeouts := reaper.idleTimeouts.upsert sandboxId record.recordTimeout }

/-- Without an activity entry nothing is forgotten, the policy entry included. -/
def forget (sandboxId : String) (expectedGeneration : Option Nat) : SandboxIdleReaper :=
  match reaper.lastActivityAt.get sandboxId with
  | none => reaper
  | some current =>
    if expectedGeneration.isSome ∧ current.1 ≠ expectedGeneration then
      reaper
    else
      { lastActivityAt := reaper.lastActivityAt.erase sandboxId
        idleTimeouts := reaper.idleTimeouts.erase sandboxId }

def setDefault {ρ : Type} (t : Table String ρ) (sandboxId : String) (value : ρ) : Table String ρ :=
  match t.get sandboxId with
  | some _ => t
  | none => t.upsert sandboxId value

/-- The loop of `_seed_existing` over what the backend lists. -/
def seedExisting (records : List (String × SandboxRecord)) (now : ℚ) : SandboxIdleReaper :=
  records.foldl
    (fun reaper row =>
      { lastActivityAt := setDefault reaper.lastActivityAt row.1 (some row.2.generation, now)
        idleTimeouts := setDefault reaper.idleTimeouts row.1 row.2.recordTimeout })
    reaper

def timeoutsOrGlobal (sandboxId : String) : Int :=
  match reaper.idleTimeouts.get sandboxId with
  | some (some timeout) => timeout
  | _ => idleTimeoutSeconds

/-- The entry of an id is older than its threshold. -/
def isExpired (sandboxId : String) (lastAt now : ℚ) : Bool :=
  let timeout := reaper.timeoutsOrGlobal idleTimeoutSeconds sandboxId
  decide (0 < timeout) && decide (lastAt ≤ now - timeout)

/-- `_collect_expired_sandboxes`. -/
def collectExpired (now : ℚ) : List (String × Option Nat) :=
  if idleTimeoutSeconds ≤ 0 then
    []
  else
    reaper.lastActivityAt.rows.filterMap fun row =>
      if reaper.isExpired idleTimeoutSeconds row.1 row.2.2 now then some (row.1, row.2.1) else none

/-- The check of `_delete_expired_sandbox` under the lock: the time and the threshold it
compared, or `none` when the entry is not to be reaped any more. -/
def recheck (sandboxId : String) (generation : Option Nat) (now : ℚ) : Option (ℚ × Int) :=
  match reaper.lastActivityAt.get sandboxId with
  | none => none
  | some current =>
    if current.1 = generation ∧ reaper.isExpired idleTimeoutSeconds sandboxId current.2 now then
      some (current.2, reaper.timeoutsOrGlobal idleTimeoutSeconds sandboxId)
    else
      none

end SandboxIdleReaper

/-- The threshold of a record: its own, zero when it is resident, else the global one. -/
def SandboxRecord.timeout (record : SandboxRecord) (idleTimeoutSeconds : Int) : Int :=
  match record.recordTimeout with
  | some timeout => timeout
  | none => idleTimeoutSeconds

/-! ## Requests and deletions around the backend -/

namespace Reaping

/-- What a request has got from the backend and told the reaper. -/
inductive Progress where
  /-- The backend call has not returned. -/
  | fresh
  /-- It raised or found nothing. -/
  | failed
  | found (record : SandboxRecord)
  | remembered (record : SandboxRecord)
  | touched (record : SandboxRecord)
  /-- The response of a create request is sent. -/
  | responded (record : SandboxRecord)
  deriving DecidableEq

namespace Progress

def record : Progress → Option SandboxRecord
  | .fresh | .failed => none
  | .found record | .remembered record | .touched record | .responded record => some record

/-- `idle_reaper.touch` has returned. -/
def isTouched : Progress → Bool
  | .touched _ => true
  | _ => false

/-- The record waits for `remember`, `touch` or the response. -/
def isOpen : Progress → Bool
  | .found _ | .remembered _ | .touched _ => true
  | _ => false

end Progress

/-- What the backend did for a create or discover. -/
inductive BackendAnswer where
  /-- The container is there and its record is returned. -/
  | found
  /-- A container takes the place of what was there. -/
  | fresh (lifecycle : Option Lifecycle) (idleTimeoutSeconds : Option Nat)
  /-- The call raises or returns nothing, the container being removed or not. -/
  | missing (removes : Bool)
  deriving DecidableEq

/-- A terminal WebSocket. -/
structure Socket where
  sandboxId : String
  progress : Progress
  closed : Bool
  deriving DecidableEq

/-- A WebSocket that uses a container. -/
def Socket.inFlight (sandboxId : String) (socket : Socket) : Bool :=
  socket.sandboxId == sandboxId && socket.progress.record.isSome && !socket.closed

/-- How far the body of a deletion has come. -/
inductive Stage where
  | start
  /-- The reaper's check has passed with this time and this threshold. -/
  | checked (lastAt : ℚ) (timeout : Int)
  /-- The backend has removed the container. -/
  | removed
  /-- The reaper's check has not passed, or the backend raised. -/
  | skipped
  /-- `idle_reaper.forget` has returned. -/
  | forgotten
  deriving DecidableEq

structure Body where
  expectedGeneration : Option Nat
  stage : Stage
  deriving DecidableEq

/-- The process of the provisioner, the containers and the clock.  Requests and deletions are
those of the barrier, their own data is kept by their index. -/
structure State where
  base : Barrier.State
  progress : Nat → Progress
  bodies : Nat → Body
  sockets : List Socket
  reaper : SandboxIdleReaper
  /-- What the reaper has collected and not yet looked at. -/
  pending : List (String × Option Nat)
  containers : Table String SandboxRecord
  nextGeneration : Nat
  clock : ℚ
  /-- When the last request that returned or used a generation ended. -/
  finished : Table Nat ℚ
  /-- The generations the reaper has removed. -/
  reaped : Finset Nat

def State.initial : State where
  base := Barrier.State.initial
  progress := fun _ => .fresh
  bodies := fun _ => ⟨none, .start⟩
  sockets := []
  reaper := SandboxIdleReaper.initial
  pending := []
  containers := Table.empty
  nextGeneration := 0
  clock := 0
  finished := Table.empty
  reaped := ∅

inductive Action where
  /-- The clock moves on, never back. -/
  | tick (now : ℚ)
  | request (kind : OperationKind) (sandboxId : String)
  | operation (index : Nat) (event : OperationEvent)
  /-- The backend call of a request returns. -/
  | answer (index : Nat) (answer : BackendAnswer)
  | remember (index : Nat)
  | touch (index : Nat)
  /-- The response of a create request is sent. -/
  | respond (index : Nat)
  | openSocket (sandboxId : String)
  | answerSocket (index : Nat) (answer : BackendAnswer)
  | rememberSocket (index : Nat)
  | touchSocket (index : Nat)
  | closeSocket (index : Nat)
  /-- `delete_sandbox`, or a quiescence deletion of a listed record. -/
  | requestDelete (quiescence : Bool) (sandboxId : String) (expectedGeneration : Option Nat)
  | collect
  /-- The reaper begins the deletion of the next entry it has collected. -/
  | reap
  | drain (index : Nat)
  | recheck (index : Nat)
  /-- The backend's delete; the flag tells whether the engine was reached. -/
  | deleteBackend (index : Nat) (reached : Bool)
  | forget (index : Nat)
  | endDelete (index : Nat)
  /-- The process starts again; the flag tells whether the backend could be listed. -/
  | restart (listed : Bool)
  deriving DecidableEq

/-! ## Backend calls -/

/-- What a create or discover leaves behind, and what it gives the request. -/
def State.backend (σ : State) (sandboxId : String) (creates : Bool) :
    BackendAnswer → Table String SandboxRecord × Nat × Progress
  | .found =>
    match σ.containers.get sandboxId with
    | some record => (σ.containers, σ.nextGeneration, .found record)
    | none => (σ.containers, σ.nextGeneration, .failed)
  | .fresh lifecycle idleTimeoutSeconds =>
    if creates then
      let record : SandboxRecord := ⟨σ.nextGeneration, lifecycle, idleTimeoutSeconds⟩
      (σ.containers.upsert sandboxId record, σ.nextGeneration + 1, .found record)
    else
      (σ.containers, σ.nextGeneration, .failed)
  | .missing removes =>
    (if removes then σ.containers.erase sandboxId else σ.containers, σ.nextGeneration, .failed)

/-- The request stands at its backend call. -/
def asksBackend (operation : Operation) : Bool :=
  operation.phase == .pinned || operation.phase == .discovering

def State.answer (σ : State) (index : Nat) (answer : BackendAnswer) : State :=
  match σ.base.operations[index]? with
  | none => σ
  | some operation =>
    if asksBackend operation ∧ σ.progress index = .fresh then
      let (containers, nextGeneration, progress) :=
        σ.backend operation.sandboxId (operation.kind == .create) answer
      { σ with
        containers := containers
        nextGeneration := nextGeneration
        progress := Function.update σ.progress index progress }
    else
      σ

/-! ## The reaper's maps -/

/-- Where a request tells the reaper about its record: create after its pinned section, get and
touch inside it, a proxy request before it returns the response. -/
def tellsReaper (operation : Operation) : Bool :=
  match operation.kind with
  | .create => operation.phase == .finished
  | .get | .touch => operation.phase == .pinned
  | .proxy => operation.phase == .responding

def State.remember (σ : State) (index : Nat) : State :=
  match σ.base.operations[index]?, σ.progress index with
  | some operation, .found record =>
    if tellsReaper operation then
      { σ with
        reaper := σ.reaper.remember operation.sandboxId record
        progress := Function.update σ.progress index (.remembered record) }
    else
      σ
  | _, _ => σ

def State.touch (σ : State) (index : Nat) : State :=
  match σ.base.operations[index]?, σ.progress index with
  | some operation, .remembered record =>
    { σ with
      reaper := σ.reaper.touch operation.sandboxId (some record.generation) σ.clock
      progress := Function.update σ.progress index (.touched record) }
  | _, _ => σ

/-! ## The end of a request -/

/-- The time at which a request ended is the last use of the generation it got. -/
def recordEnd (finished : Table Nat ℚ) (progress : Progress) (now : ℚ) : Table Nat ℚ :=
  match progress.record with
  | some record => finished.upsert record.generation now
  | none => finished

def State.respond (σ : State) (index : Nat) : State :=
  match σ.base.operations[index]?, σ.progress index with
  | some operation, .touched record =>
    if operation.kind = .create then
      { σ with
        progress := Function.update σ.progress index (.responded record)
        finished := recordEnd σ.finished (.touched record) σ.clock }
    else
      σ
  | _, _ => σ

/-- The statements of a request between its awaits: it leaves its pinned section when its backend
call has returned and it has told the reaper what it has to, a cancellation comes at an await. -/
def allows (operation : Operation) (progress : Progress) : OperationEvent → Bool
  | .proceed succeeds =>
    match operation.phase with
    | .pinned =>
      if operation.kind = .create then
        progress != .fresh
      else
        progress == .failed || progress.isTouched
    | .discovering => if succeeds then progress.record.isSome else progress == .failed
    | .responding => progress.isTouched
    | _ => true
  | .cancel => operation.phase != .responding || progress.isTouched
  | .startWorker | .acquire => true

/-- A get, touch or proxy request ends when it comes to its last phase. -/
def State.ends (σ : State) (index : Nat) (operation : Operation) (event : OperationEvent) : Bool :=
  operation.kind != .create && operation.phase != .finished &&
    ((Barrier.step σ.base (.operation index event)).operations[index]?).any (·.phase == .finished)

def State.operationEvent (σ : State) (index : Nat) (event : OperationEvent) : State :=
  match σ.base.operations[index]? with
  | none => σ
  | some operation =>
    if allows operation (σ.progress index) event then
      { σ with
        base := Barrier.step σ.base (.operation index event)
        finished :=
          if σ.ends index operation event then
            recordEnd σ.finished (σ.progress index) σ.clock
          else
            σ.finished }
    else
      σ

/-! ## WebSockets -/

/-- A WebSocket at this index, changed. -/
def State.setSocket (σ : State) (index : Nat) (socket : Socket) : State :=
  { σ with sockets := σ.sockets.set index socket }

def State.answerSocket (σ : State) (index : Nat) (answer : BackendAnswer) : State :=
  match σ.sockets[index]? with
  | none => σ
  | some socket =>
    if socket.progress = .fresh ∧ socket.closed = false then
      let (containers, nextGeneration, progress) := σ.backend socket.sandboxId false answer
      { σ with containers := containers, nextGeneration := nextGeneration }.setSocket index
        { socket with progress := progress }
    else
      σ

def State.rememberSocket (σ : State) (index : Nat) : State :=
  match σ.sockets[index]? with
  | none => σ
  | some socket =>
    match socket.progress with
    | .found record =>
      if socket.closed then
        σ
      else
        { σ with reaper := σ.reaper.remember socket.sandboxId record }.setSocket index
          { socket with progress := .remembered record }
    | _ => σ

def State.touchSocket (σ : State) (index : Nat) : State :=
  match σ.sockets[index]? with
  | none => σ
  | some socket =>
    match socket.progress with
    | .remembered record =>
      if socket.closed then
        σ
      else
        { σ with
          reaper := σ.reaper.touch socket.sandboxId (some record.generation) σ.clock }.setSocket
            index { socket with progress := .touched record }
    | _ => σ

def State.closeSocket (σ : State) (index : Nat) : State :=
  match σ.sockets[index]? with
  | none => σ
  | some socket =>
    if socket.closed then
      σ
    else
      { σ with finished := recordEnd σ.finished socket.progress σ.clock }.setSocket index
        { socket with closed := true }

/-! ## Deletions -/

/-- `begin_delete` and the body that follows it. -/
def State.beginDelete (σ : State) (source : DeletionSource) (sandboxId : String)
    (expectedGeneration : Option Nat) : State :=
  { σ with
    base := Barrier.step σ.base (.beginDelete source sandboxId)
    bodies := Function.update σ.bodies σ.base.deletions.length ⟨expectedGeneration, .start⟩ }

/-- The reaper is inside `_delete_expired_sandbox`. -/
def State.reaperBusy (σ : State) : Bool :=
  σ.base.deletions.any fun deletion => deletion.source == DeletionSource.reaper && deletion.live

def State.collect (σ : State) (idleTimeoutSeconds : Int) : State :=
  if σ.reaperBusy ∨ σ.pending ≠ [] then
    σ
  else
    { σ with pending := σ.reaper.collectExpired idleTimeoutSeconds σ.clock }

def State.reap (σ : State) : State :=
  match σ.pending with
  | [] => σ
  | (sandboxId, generation) :: rest =>
    if σ.reaperBusy then
      σ
    else
      { σ with pending := rest }.beginDelete .reaper sandboxId generation

def State.setStage (σ : State) (index : Nat) (stage : Stage) : State :=
  { σ with bodies := Function.update σ.bodies index { σ.bodies index with stage := stage } }

/-- The stage after the reaper's check. -/
def checkedStage : Option (ℚ × Int) → Stage
  | some (lastAt, timeout) => .checked lastAt timeout
  | none => .skipped

def State.recheck (σ : State) (idleTimeoutSeconds : Int) (index : Nat) : State :=
  match σ.base.deletions[index]? with
  | none => σ
  | some deletion =>
    if deletion.source = .reaper ∧ deletion.phase = .deleting ∧ (σ.bodies index).stage = .start then
      σ.setStage index (checkedStage (σ.reaper.recheck idleTimeoutSeconds deletion.sandboxId
        (σ.bodies index).expectedGeneration σ.clock))
    else
      σ

/-- The deletion stands at its backend call: the reaper's after its check, the others at once. -/
def atBackend (deletion : Deletion) (stage : Stage) : Bool :=
  deletion.phase == .deleting &&
    match deletion.source, stage with
    | .reaper, .checked _ _ => true
    | .reaper, _ => false
    | _, .start => true
    | _, _ => false

/-- The generation fence of the backend's delete. -/
def fencePasses (expectedGeneration : Option Nat) (record : SandboxRecord) : Bool :=
  match expectedGeneration with
  | some expected => record.generation == expected
  | none => true

/-- The container that a backend's delete of this deletion removes. -/
def State.target (σ : State) (index : Nat) (deletion : Deletion) : Option SandboxRecord :=
  (σ.containers.get deletion.sandboxId).filter (fencePasses (σ.bodies index).expectedGeneration)

/-- The generations the reaper has removed, after one more removal. -/
def recordReaped (source : DeletionSource) (generation : Nat) (reaped : Finset Nat) : Finset Nat :=
  if source = .reaper then insert generation reaped else reaped

def State.deleteBackend (σ : State) (index : Nat) (reached : Bool) : State :=
  match σ.base.deletions[index]? with
  | none => σ
  | some deletion =>
    if atBackend deletion (σ.bodies index).stage then
      if reached then
        match σ.target index deletion with
        | some record =>
          { σ with
            containers := σ.containers.erase deletion.sandboxId
            reaped := recordReaped deletion.source record.generation σ.reaped }.setStage
              index .removed
        | none =>
          σ.setStage index
            (if (σ.containers.get deletion.sandboxId).isSome then .skipped else .removed)
      else
        σ.setStage index .skipped
    else
      σ

/-- The reaper forgets inside its deletion, the others after it. -/
def forgetsNow (deletion : Deletion) (stage : Stage) : Bool :=
  stage == .removed && deletion.phase == (if deletion.source = .reaper then .deleting else .ended)

def State.forget (σ : State) (index : Nat) : State :=
  match σ.base.deletions[index]? with
  | none => σ
  | some deletion =>
    if forgetsNow deletion (σ.bodies index).stage then
      { σ with
        reaper := σ.reaper.forget deletion.sandboxId
          (σ.bodies index).expectedGeneration }.setStage index .forgotten
    else
      σ

/-- The body of the deletion is over. -/
def bodyOver (deletion : Deletion) (stage : Stage) : Bool :=
  match stage with
  | .skipped | .forgotten => true
  | .removed => deletion.source != .reaper
  | .start | .checked _ _ => false

def State.endDelete (σ : State) (index : Nat) : State :=
  match σ.base.deletions[index]? with
  | none => σ
  | some deletion =>
    if bodyOver deletion (σ.bodies index).stage then
      { σ with base := Barrier.step σ.base (.endDelete index) }
    else
      σ

/-! ## A restart -/

/-- A restart ends every request it interrupts. -/
def State.interrupted (σ : State) : Table Nat ℚ :=
  let requests := (List.range σ.base.operations.length).map σ.progress
  (requests ++ σ.sockets.map (·.progress)).foldl
    (fun finished progress => recordEnd finished progress σ.clock) σ.finished

/-- The maps of a process that starts: seeded from the backend unless the reaper is disabled. -/
def State.seeded (σ : State) (idleTimeoutSeconds : Int) (listed : Bool) : SandboxIdleReaper :=
  if listed ∧ 0 < idleTimeoutSeconds then
    SandboxIdleReaper.initial.seedExisting σ.containers.rows σ.clock
  else
    SandboxIdleReaper.initial

def State.restart (σ : State) (idleTimeoutSeconds : Int) (listed : Bool) : State :=
  { State.initial with
    reaper := σ.seeded idleTimeoutSeconds listed
    containers := σ.containers
    nextGeneration := σ.nextGeneration
    clock := σ.clock
    finished := σ.interrupted
    reaped := σ.reaped }

/-! ## The system -/

/-- One step of the provisioner with this global threshold. -/
def step (idleTimeoutSeconds : Int) (σ : State) : Action → State
  | .tick now => { σ with clock := max σ.clock now }
  | .request kind sandboxId =>
    { σ with
      base := Barrier.step σ.base (.request kind sandboxId)
      progress := Function.update σ.progress σ.base.operations.length .fresh }
  | .operation index event => σ.operationEvent index event
  | .answer index answer => σ.answer index answer
  | .remember index => σ.remember index
  | .touch index => σ.touch index
  | .respond index => σ.respond index
  | .openSocket sandboxId => { σ with sockets := σ.sockets ++ [⟨sandboxId, .fresh, false⟩] }
  | .answerSocket index answer => σ.answerSocket index answer
  | .rememberSocket index => σ.rememberSocket index
  | .touchSocket index => σ.touchSocket index
  | .closeSocket index => σ.closeSocket index
  | .requestDelete quiescence sandboxId expectedGeneration =>
    σ.beginDelete (if quiescence then .quiescence else .endpoint) sandboxId expectedGeneration
  | .collect => σ.collect idleTimeoutSeconds
  | .reap => σ.reap
  | .drain index => { σ with base := Barrier.step σ.base (.drain index) }
  | .recheck index => σ.recheck idleTimeoutSeconds index
  | .deleteBackend index reached => σ.deleteBackend index reached
  | .forget index => σ.forget index
  | .endDelete index => σ.endDelete index
  | .restart listed => σ.restart idleTimeoutSeconds listed

/-! ## What the reaper promises -/

/-- A create request that has its record and has not sent its response. -/
def State.createOpen (σ : State) (sandboxId : String) : Bool :=
  (List.range σ.base.operations.length).any fun index =>
    (σ.base.operations[index]?).any fun operation =>
      operation.kind == .create && operation.sandboxId == sandboxId &&
        operation.phase == .finished && (σ.progress index).isOpen

/-- A request on the id has acquired its pin and is not over, or a WebSocket uses its container. -/
def State.inFlight (σ : State) (sandboxId : String) : Bool :=
  σ.base.operations.any (·.holds sandboxId) || σ.createOpen sandboxId ||
    σ.sockets.any (·.inFlight sandboxId)

/-- The last request that returned or used the generation ended at least this long ago. -/
def State.idleFor (σ : State) (generation : Nat) (timeout : Int) : Bool :=
  (σ.finished.get generation).all fun at' => decide (at' + timeout ≤ σ.clock)

/-- The container that the next step removes on behalf of the reaper, with the time and the
threshold its check has compared. -/
def State.reaps (σ : State) : Action → Option (String × SandboxRecord × ℚ × Int)
  | .deleteBackend index true =>
    match σ.base.deletions[index]?, (σ.bodies index).stage with
    | some deletion, .checked lastAt timeout =>
      if deletion.source = .reaper ∧ deletion.phase = .deleting then
        (σ.target index deletion).map fun record =>
          (deletion.sandboxId, record, lastAt, timeout)
      else
        none
    | _, _ => none
  | _ => none

/-- The record that the next step returns to the client of a create request. -/
def State.returns (σ : State) : Action → Option SandboxRecord
  | .respond index =>
    match σ.base.operations[index]?, σ.progress index with
    | some operation, .touched record => if operation.kind = .create then some record else none
    | _, _ => none
  | _ => none

/-- The promise about one step: the reaper removes only what nobody uses and what has a threshold
that has passed, and a create request does not return what the reaper has removed. -/
def reapsIdle (idleTimeoutSeconds : Int) (σ : State) (a : Action) : Prop :=
  (∀ sandboxId record lastAt timeout, σ.reaps a = some (sandboxId, record, lastAt, timeout) →
    σ.inFlight sandboxId = false ∧ 0 < record.timeout idleTimeoutSeconds ∧
      σ.idleFor record.generation (record.timeout idleTimeoutSeconds) = true) ∧
    ∀ record, σ.returns a = some record → record.generation ∉ σ.reaped

end Reaping

end Yuanlei.Provisioner
