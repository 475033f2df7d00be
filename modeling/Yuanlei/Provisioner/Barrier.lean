import Yuanlei.Lib.Processes
import Yuanlei.Lib.Transition
import Yuanlei.Provisioner.Pins

/-!
# The deletion barrier of the sandbox provisioner

The requests and deletions of the provisioner as one system over
`SandboxOperationPins`.  Create, get and touch run in a worker thread from
`acquire` to the `finally` that releases.  A proxy request awaits
`acquire` in a worker thread, awaits the discovery, awaits the upstream and
hands its pin to the generator of the response body, whose `finally`
releases it; it may be cancelled at each of these awaits.  A deletion, whoever
asks for it, runs between `begin_delete` and the `end_delete` of its
`finally`.

Main results:

- `barrier_of_orderly`: in every run whose steps are orderly, no
  request holds a pin inside a deletion of its id and the pin counts are the
  numbers of requests that hold one.
- `overlapping_deletions_break_barrier`: a run in which two
  deletions of one id overlap and a request enters the second of them.
-/

namespace Yuanlei.Provisioner

/-! ## Requests -/

/-- The endpoints that pin a sandbox. -/
inductive OperationKind where
  | create
  | get
  | touch
  | proxy
  deriving DecidableEq

/-- How far a request has come. -/
inductive Phase where
  /-- A proxy request whose worker thread has not started. -/
  | queued
  /-- In the loop of `acquire`. -/
  | acquiring
  /-- A cancelled proxy request whose worker thread is still in `acquire`. -/
  | abandoned
  /-- The worker thread has returned from `acquire`, the coroutine has not resumed. -/
  | acquired
  /-- The body of a create, get or touch request. -/
  | pinned
  /-- A proxy request awaits `discover`. -/
  | discovering
  /-- A proxy request awaits the upstream response. -/
  | sending
  /-- The response is returned and its body generator has not started. -/
  | responding
  /-- The body generator is inside its `try`. -/
  | streaming
  /-- The body generator awaits `aclose` in its `finally`. -/
  | closing
  | finished
  deriving DecidableEq

/-- The request has acquired its pin and is not finished. -/
def Phase.holdsPin : Phase → Bool
  | .acquired | .pinned | .discovering | .sending | .responding | .streaming | .closing => true
  | .queued | .acquiring | .abandoned | .finished => false

structure Operation where
  kind : OperationKind
  sandboxId : String
  phase : Phase
  deriving DecidableEq

namespace Operation

/-- The request holds a pin on the id. -/
def holds (sandboxId : String) (operation : Operation) : Bool :=
  operation.sandboxId == sandboxId && operation.phase.holdsPin

/-- A request as it arrives: only the proxy goes through `asyncio.to_thread`. -/
def arrive (kind : OperationKind) (sandboxId : String) : Operation where
  kind := kind
  sandboxId := sandboxId
  phase := if kind = .proxy then .queued else .acquiring

end Operation

/-- What may happen to a request next. -/
inductive OperationEvent where
  /-- The worker thread of a proxy request starts. -/
  | startWorker
  /-- One test of the loop of `acquire`. -/
  | acquire
  /-- The request passes its current statement; the flag tells whether that went well
  and, for a body generator, whether there was a further chunk. -/
  | proceed (succeeds : Bool)
  /-- The task of a proxy request is cancelled, or its body generator is dropped. -/
  | cancel
  deriving DecidableEq

/-- The request goes on and leaves the pins alone. -/
def keepPins (pins : SandboxOperationPins) (phase : Phase) : Option (SandboxOperationPins × Phase) :=
  some (pins, phase)

/-- The request releases its pin and ends. -/
def releasePin (pins : SandboxOperationPins) (operation : Operation) :
    Option (SandboxOperationPins × Phase) :=
  some (pins.release operation.sandboxId, .finished)

/-- One test of the loop of `acquire`, in the thread of the request or in its worker thread. -/
def acquireStep (pins : SandboxOperationPins) (operation : Operation) :
    Option (SandboxOperationPins × Phase) :=
  match operation.phase with
  | .acquiring =>
    (pins.acquire operation.sandboxId).map fun pins' =>
      (pins', if operation.kind = .proxy then .acquired else .pinned)
  -- nobody waits for this thread any more, so nobody releases what it acquires
  | .abandoned => (pins.acquire operation.sandboxId).map fun pins' => (pins', .finished)
  | _ => none

/-- The request passes its current statement. -/
def proceedStep (pins : SandboxOperationPins) (operation : Operation) (succeeds : Bool) :
    Option (SandboxOperationPins × Phase) :=
  match operation.phase with
  | .pinned => releasePin pins operation
  | .acquired => keepPins pins .discovering
  | .discovering => if succeeds then keepPins pins .sending else releasePin pins operation
  | .sending => if succeeds then keepPins pins .responding else releasePin pins operation
  | .responding => keepPins pins .streaming
  | .streaming => keepPins pins (if succeeds then .streaming else .closing)
  | .closing => releasePin pins operation
  | .queued | .acquiring | .abandoned | .finished => none

/-- A proxy request is cancelled at the await it stands at. -/
def cancelStep (pins : SandboxOperationPins) (operation : Operation) :
    Option (SandboxOperationPins × Phase) :=
  match operation.phase with
  | .queued => keepPins pins .finished
  -- the first await stands before the `try`
  | .acquiring => if operation.kind = .proxy then keepPins pins .abandoned else none
  | .acquired => keepPins pins .finished
  | .discovering => releasePin pins operation
  | .sending => releasePin pins operation
  -- closing a generator that was never started runs none of its body
  | .responding => keepPins pins .finished
  | .streaming => keepPins pins .closing
  | .closing => releasePin pins operation
  | .pinned | .abandoned | .finished => none

/-- What one event does to the pins and to the request; `none` when it cannot happen. -/
def operationStep (pins : SandboxOperationPins) (operation : Operation) :
    OperationEvent → Option (SandboxOperationPins × Phase)
  | .startWorker => if operation.phase = .queued then keepPins pins .acquiring else none
  | .acquire => acquireStep pins operation
  | .proceed succeeds => proceedStep pins operation succeeds
  | .cancel => cancelStep pins operation

/-! ## Deletions -/

/-- The three callers of `begin_delete`. -/
inductive DeletionSource where
  | endpoint
  | reaper
  | quiescence
  deriving DecidableEq

inductive DeletionPhase where
  /-- In the loop of `begin_delete`. -/
  | draining
  /-- Between the return of `begin_delete` and `end_delete`. -/
  | deleting
  | ended
  deriving DecidableEq

structure Deletion where
  source : DeletionSource
  sandboxId : String
  phase : DeletionPhase
  deriving DecidableEq

/-- `begin_delete` has been called and `end_delete` has not. -/
def Deletion.live (deletion : Deletion) : Bool :=
  deletion.phase != .ended

/-! ## The system -/

namespace Barrier

structure State where
  pins : SandboxOperationPins
  operations : List Operation
  deletions : List Deletion

/-- A provisioner that has just started. -/
def State.initial : State where
  pins := SandboxOperationPins.initial
  operations := []
  deletions := []

inductive Action where
  | request (kind : OperationKind) (sandboxId : String)
  | operation (index : Nat) (event : OperationEvent)
  /-- `begin_delete` marks the id and tests its count once. -/
  | beginDelete (source : DeletionSource) (sandboxId : String)
  /-- A later test of the loop of `begin_delete`. -/
  | drain (index : Nat)
  | endDelete (index : Nat)
  deriving DecidableEq

/-- What `begin_delete` finds when it tests the count. -/
def drainPhase (pins : SandboxOperationPins) (sandboxId : String) : DeletionPhase :=
  if pins.drained sandboxId then .deleting else .draining

/-- An event of the request at this index. -/
def State.operationEvent (σ : State) (index : Nat) (event : OperationEvent) : State :=
  match σ.operations[index]? with
  | none => σ
  | some operation =>
    match operationStep σ.pins operation event with
    | none => σ
    | some (pins', phase') =>
      { σ with
        pins := pins'
        operations := σ.operations.set index { operation with phase := phase' } }

/-- The deletion at this index tests the count again. -/
def State.drain (σ : State) (index : Nat) : State :=
  match σ.deletions[index]? with
  | none => σ
  | some deletion =>
    if deletion.phase = .draining then
      { σ with
        deletions := σ.deletions.set index
          { deletion with phase := drainPhase σ.pins deletion.sandboxId } }
    else
      σ

/-- The deletion at this index leaves its `finally`. -/
def State.endDelete (σ : State) (index : Nat) : State :=
  match σ.deletions[index]? with
  | none => σ
  | some deletion =>
    if deletion.phase = .deleting then
      { σ with
        pins := σ.pins.endDelete deletion.sandboxId
        deletions := σ.deletions.set index { deletion with phase := .ended } }
    else
      σ

def step (σ : State) : Action → State
  | .request kind sandboxId =>
    { σ with operations := σ.operations ++ [Operation.arrive kind sandboxId] }
  | .operation index event => σ.operationEvent index event
  | .beginDelete source sandboxId =>
    let pins' := σ.pins.markDeleting sandboxId
    { σ with
      pins := pins'
      deletions := σ.deletions ++ [⟨source, sandboxId, drainPhase pins' sandboxId⟩] }
  | .drain index => σ.drain index
  | .endDelete index => σ.endDelete index

/-! ## The barrier and the pin counts -/

/-- The number of requests that have acquired a pin on the id and are not finished. -/
def State.holders (σ : State) (sandboxId : String) : Nat :=
  σ.operations.countP (Operation.holds sandboxId)

/-- What the pins are for: a deletion is alone with its id, and no pin is leaked or lost. -/
structure Holds (σ : State) : Prop where
  alone : ∀ deletion ∈ σ.deletions, deletion.phase = .deleting →
    (∀ operation ∈ σ.operations, operation.holds deletion.sandboxId = false) ∧
      σ.pins.acquire deletion.sandboxId = none
  counted : ∀ sandboxId, σ.pins.count sandboxId = σ.holders sandboxId
  idle : ∀ sandboxId, (∀ operation ∈ σ.operations, operation.holds sandboxId = false) →
    σ.pins.count sandboxId = 0

/-- The phases in which a cancelled proxy request loses its pin. -/
def losesPinWhenCancelled : Phase → Bool
  | .acquiring | .acquired | .responding => true
  | _ => false

/-- Another deletion of the same id has begun and not ended. -/
def overlapped (deletions : List Deletion) (index : Nat) (sandboxId : String) : Bool :=
  (List.range deletions.length).any fun other =>
    other != index && deletions[other]?.any fun deletion =>
      deletion.sandboxId == sandboxId && deletion.live

/-- No deletion ends inside another one of the same id. -/
def separated (σ : State) : Action → Bool
  | .endDelete index =>
    σ.deletions[index]?.all fun deletion => !overlapped σ.deletions index deletion.sandboxId
  | _ => true

/-- No proxy request is cancelled before its discovery or dropped before its body starts. -/
def attentive (σ : State) : Action → Bool
  | .operation index .cancel =>
    σ.operations[index]?.all fun operation => !losesPinWhenCancelled operation.phase
  | _ => true

/-- The condition on a step. -/
def orderly (σ : State) (a : Action) : Bool :=
  separated σ a && attentive σ a

/-! ## What one event does to a pin -/

/-- What an event of a request on the id does to the pins, between whether it held a pin
before and whether it holds one after.  The last flag tells that a pin stays behind that
no request holds. -/
inductive PinEffect (pins : SandboxOperationPins) (sandboxId : String) :
    Bool → SandboxOperationPins → Bool → Bool → Prop where
  | keep (held : Bool) : PinEffect pins sandboxId held pins held false
  | take {pins' : SandboxOperationPins} (h : pins.acquire sandboxId = some pins') :
      PinEffect pins sandboxId false pins' true false
  | drop : PinEffect pins sandboxId true (pins.release sandboxId) false false
  | leak : PinEffect pins sandboxId true pins false true
  | orphan {pins' : SandboxOperationPins} (h : pins.acquire sandboxId = some pins') :
      PinEffect pins sandboxId false pins' false true

/-- An event keeps, takes or drops the pin of its request; a pin stays behind only where a
cancelled request lost it. -/
structure EventEffect (pins : SandboxOperationPins) (operation : Operation) (event : OperationEvent)
    (pins' : SandboxOperationPins) (phase' : Phase) : Prop where
  effect : ∃ lost, PinEffect pins operation.sandboxId operation.phase.holdsPin pins'
    phase'.holdsPin lost ∧ (operation.phase ≠ .abandoned →
        (event = .cancel → losesPinWhenCancelled operation.phase = false) →
          lost = false ∧ phase' ≠ .abandoned)

variable {pins pins' : SandboxOperationPins} {operation : Operation} {phase' : Phase}
  {event : OperationEvent}

theorem EventEffect.of_kept
    (h : PinEffect pins operation.sandboxId operation.phase.holdsPin pins' phase'.holdsPin false)
    (hphase : phase' ≠ .abandoned) : EventEffect pins operation event pins' phase' :=
  ⟨false, h, fun _ _ => ⟨rfl, hphase⟩⟩

theorem acquireStep_effect (h : acquireStep pins operation = some (pins', phase')) :
    EventEffect pins operation .acquire pins' phase' := by
  unfold acquireStep at h
  split at h
  · rename_i hacquiring
    obtain ⟨taken, htaken, hpair⟩ := Option.map_eq_some_iff.mp h
    cases hpair
    apply EventEffect.of_kept
    · rw [hacquiring]
      split
      · exact .take htaken
      · exact .take htaken
    · split <;> simp
  · rename_i habandoned
    obtain ⟨taken, htaken, hpair⟩ := Option.map_eq_some_iff.mp h
    cases hpair
    refine ⟨true, ?_, fun hphase => absurd habandoned hphase⟩
    rw [habandoned]
    exact .orphan htaken
  · cases h

theorem proceedStep_effect {succeeds : Bool}
    (h : proceedStep pins operation succeeds = some (pins', phase')) :
    EventEffect pins operation (.proceed succeeds) pins' phase' := by
  have hkept : PinEffect pins operation.sandboxId operation.phase.holdsPin pins' phase'.holdsPin
      false ∧ phase' ≠ .abandoned := by
    cases hphase : operation.phase <;>
      simp only [proceedStep, hphase, releasePin, keepPins, reduceCtorEq] at h
    case pinned => cases h; exact ⟨.drop, by simp⟩
    case acquired => cases h; exact ⟨.keep true, by simp⟩
    case discovering =>
      cases succeeds
      · cases h; exact ⟨.drop, by simp⟩
      · cases h; exact ⟨.keep true, by simp⟩
    case sending =>
      cases succeeds
      · cases h; exact ⟨.drop, by simp⟩
      · cases h; exact ⟨.keep true, by simp⟩
    case responding => cases h; exact ⟨.keep true, by simp⟩
    case streaming =>
      cases succeeds
      · cases h; exact ⟨.keep true, by simp⟩
      · cases h; exact ⟨.keep true, by simp⟩
    case closing => cases h; exact ⟨.drop, by simp⟩
  exact .of_kept hkept.1 hkept.2

theorem cancelStep_effect (h : cancelStep pins operation = some (pins', phase')) :
    EventEffect pins operation .cancel pins' phase' := by
  by_cases hloses : losesPinWhenCancelled operation.phase = true
  · have hlost : ∃ lost, PinEffect pins operation.sandboxId operation.phase.holdsPin pins'
        phase'.holdsPin lost := by
      cases hphase : operation.phase <;> rw [hphase] at hloses <;>
        simp only [cancelStep, hphase, keepPins] at h
      case acquiring =>
        split at h
        · cases h; exact ⟨false, .keep false⟩
        · cases h
      case acquired => cases h; exact ⟨true, .leak⟩
      case responding => cases h; exact ⟨true, .leak⟩
      all_goals cases hloses
    obtain ⟨lost, heffect⟩ := hlost
    exact ⟨lost, heffect, fun _ hkeeps => by rw [hkeeps rfl] at hloses; cases hloses⟩
  · have hkept : PinEffect pins operation.sandboxId operation.phase.holdsPin pins'
        phase'.holdsPin false ∧ phase' ≠ .abandoned := by
      cases hphase : operation.phase <;> rw [hphase] at hloses <;>
        simp only [cancelStep, hphase, releasePin, keepPins, reduceCtorEq] at h
      case queued => cases h; exact ⟨.keep false, by simp⟩
      case discovering => cases h; exact ⟨.drop, by simp⟩
      case sending => cases h; exact ⟨.drop, by simp⟩
      case streaming => cases h; exact ⟨.keep true, by simp⟩
      case closing => cases h; exact ⟨.drop, by simp⟩
      all_goals exact absurd rfl hloses
    exact .of_kept hkept.1 hkept.2

theorem operationStep_effect (h : operationStep pins operation event = some (pins', phase')) :
    EventEffect pins operation event pins' phase' := by
  cases event with
  | startWorker =>
    simp only [operationStep, keepPins] at h
    split at h
    · rename_i hqueued
      cases h
      apply EventEffect.of_kept
      · rw [hqueued]
        exact .keep false
      · simp
    · cases h
  | acquire => exact acquireStep_effect h
  | proceed succeeds => exact proceedStep_effect h
  | cancel => exact cancelStep_effect h

namespace PinEffect

variable {pins pins' : SandboxOperationPins} {sandboxId : String} {held held' lost : Bool}

section

variable (h : PinEffect pins sandboxId held pins' held' lost)
include h

theorem deleting :
    pins'.deleting = pins.deleting := by
  cases h with
  | keep => rfl
  | take htaken => exact SandboxOperationPins.deleting_of_acquire htaken
  | drop => exact pins.deleting_release sandboxId
  | leak => rfl
  | orphan htaken => exact SandboxOperationPins.deleting_of_acquire htaken

theorem count_of_ne {other : String}
    (hne : other ≠ sandboxId) : pins'.count other = pins.count other := by
  cases h with
  | keep => rfl
  | take htaken => rw [SandboxOperationPins.count_of_acquire htaken, if_neg hne]
  | drop => rw [SandboxOperationPins.count_release, if_neg hne]
  | leak => rfl
  | orphan htaken => rw [SandboxOperationPins.count_of_acquire htaken, if_neg hne]

/-- The count of the id moves with whether the request holds a pin, but for a pin left behind. -/
theorem count_add (hheld : held = true → 0 < pins.count sandboxId) :
    pins'.count sandboxId + (if held then 1 else 0) =
      pins.count sandboxId + (if held' then 1 else 0) + (if lost then 1 else 0) := by
  cases h with
  | keep => rfl
  | take htaken =>
    rw [SandboxOperationPins.count_of_acquire htaken, if_pos rfl]
    rfl
  | drop =>
    have hpositive := hheld rfl
    rw [SandboxOperationPins.count_release, if_pos rfl, if_pos rfl]
    simp only [Bool.false_eq_true, if_false]
    omega
  | leak => simp
  | orphan htaken =>
    rw [SandboxOperationPins.count_of_acquire htaken, if_pos rfl]
    rfl

theorem count_le_of_marked
    (hmarked : sandboxId ∈ pins.deleting) : pins'.count sandboxId ≤ pins.count sandboxId := by
  cases h with
  | keep => exact le_rfl
  | take htaken => exact absurd hmarked (SandboxOperationPins.not_mem_of_acquire htaken)
  | drop =>
    rw [SandboxOperationPins.count_release, if_pos rfl]
    omega
  | leak => exact le_rfl
  | orphan htaken => exact absurd hmarked (SandboxOperationPins.not_mem_of_acquire htaken)

end

end PinEffect

/-! ## The two invariants -/

/-- What keeps deletions alone with their ids. -/
structure Apart (σ : State) : Prop where
  covered : ∀ sandboxId, σ.holders sandboxId ≤ σ.pins.count sandboxId
  marked : ∀ deletion ∈ σ.deletions, deletion.live → deletion.sandboxId ∈ σ.pins.deleting
  drained : ∀ deletion ∈ σ.deletions, deletion.phase = .deleting →
    σ.pins.count deletion.sandboxId = 0

/-- Every pin is held by a request. -/
structure Exact (σ : State) : Prop where
  attended : ∀ operation ∈ σ.operations, operation.phase ≠ .abandoned
  counted : ∀ sandboxId, σ.pins.count sandboxId = σ.holders sandboxId

/-- What holds between the steps of an orderly run. -/
structure Inv (σ : State) : Prop extends Apart σ, Exact σ

theorem apart_initial : Apart State.initial where
  covered sandboxId := by simp [State.initial, State.holders]
  marked := by simp [State.initial]
  drained := by simp [State.initial]

theorem exact_initial : Exact State.initial where
  attended := by simp [State.initial]
  counted sandboxId := by simp [State.initial, State.holders]

variable {deletion : Deletion}

theorem live_of_deleting (h : deletion.phase = .deleting) :
    deletion.live := by
  simp [Deletion.live, h]

variable {σ : State}

/-- A deletion between its two calls shares its id with no request. -/
theorem Apart.alone (h : Apart σ) (hmem : deletion ∈ σ.deletions)
    (hphase : deletion.phase = .deleting) :
    (∀ operation ∈ σ.operations, operation.holds deletion.sandboxId = false) ∧
      σ.pins.acquire deletion.sandboxId = none := by
  have hzero : σ.holders deletion.sandboxId = 0 := by
    have hcovered := h.covered deletion.sandboxId
    rw [h.drained deletion hmem hphase] at hcovered
    exact Nat.le_zero.mp hcovered
  constructor
  · intro operation hoperation
    have hnone := List.countP_eq_zero.mp hzero operation hoperation
    simpa using hnone
  · rw [SandboxOperationPins.acquire_eq_none_iff]
    exact h.marked deletion hmem (live_of_deleting hphase)

theorem Inv.holds (h : Inv σ) : Holds σ where
  alone _ hmem hphase := h.alone hmem hphase
  counted := h.counted
  idle sandboxId hnone := by
    rw [h.counted]
    apply List.countP_eq_zero.mpr
    intro operation hoperation
    simp [hnone operation hoperation]

/-! ## An event of a request -/

variable {other : String}

theorem holds_of_ne (hne : other ≠ operation.sandboxId)
    (phase : Phase) : Operation.holds other { operation with phase := phase } = false := by
  simp [Operation.holds, Ne.symm hne]

theorem holds_self (operation : Operation) (phase : Phase) :
    Operation.holds operation.sandboxId { operation with phase := phase } = phase.holdsPin := by
  simp [Operation.holds]

theorem holders_pos (hmem : operation ∈ σ.operations)
    (hholds : operation.phase.holdsPin = true) : 0 < σ.holders operation.sandboxId := by
  apply List.countP_pos_iff.mpr
  exact ⟨operation, hmem, by simp [Operation.holds, hholds]⟩

variable {index : Nat} {operations : List Operation}

/-- The number of requests that hold a pin on the id, after one of them has changed its phase. -/
theorem holders_set_add (hget : operations[index]? = some operation) (phase : Phase) :
    (operations.set index { operation with phase := phase }).countP
          (Operation.holds operation.sandboxId) + (if operation.phase.holdsPin then 1 else 0) =
      operations.countP (Operation.holds operation.sandboxId) +
        (if phase.holdsPin then 1 else 0) := by
  have hholders := Processes.countP_set_add (Operation.holds operation.sandboxId)
    { operation with phase := phase } hget
  have hself : operation.holds operation.sandboxId = operation.phase.holdsPin :=
    holds_self operation operation.phase
  rw [holds_self operation phase, hself] at hholders
  exact hholders

theorem holders_set_of_ne (hget : operations[index]? = some operation) (phase : Phase)
    (hne : other ≠ operation.sandboxId) :
    (operations.set index { operation with phase := phase }).countP (Operation.holds other) =
      operations.countP (Operation.holds other) :=
  Processes.countP_set_of_eq (Operation.holds other) hget
    ((holds_of_ne hne phase).trans (holds_of_ne hne operation.phase).symm)

theorem operationEvent_cases (σ : State) (index : Nat) (event : OperationEvent) :
    step σ (.operation index event) = σ ∨
      ∃ operation pins' phase', σ.operations[index]? = some operation ∧
        operationStep σ.pins operation event = some (pins', phase') ∧
        step σ (.operation index event) =
          { σ with
            pins := pins'
            operations := σ.operations.set index { operation with phase := phase' } } := by
  simp only [step, State.operationEvent]
  split
  · exact .inl rfl
  · rename_i operation hget
    split
    · exact .inl rfl
    · rename_i pins' phase' hstep
      exact .inr ⟨operation, pins', phase', hget, hstep, rfl⟩

theorem apart_operation (h : Apart σ) (index : Nat) (event : OperationEvent) :
    Apart (step σ (.operation index event)) := by
  rcases operationEvent_cases σ index event with hsame | ⟨operation, pins', phase', hget, hstep, hnew⟩
  · rw [hsame]
    exact h
  · rw [hnew]
    obtain ⟨lost, heffect, -⟩ := (operationStep_effect hstep).effect
    have hmem : operation ∈ σ.operations := List.mem_of_getElem? hget
    refine ⟨?_, ?_, ?_⟩
    · intro other
      have hcovered := h.covered other
      simp only [State.holders] at hcovered ⊢
      by_cases hid : other = operation.sandboxId
      · subst hid
        have hcount := heffect.count_add fun hholds =>
          (holders_pos hmem hholds).trans_le (h.covered operation.sandboxId)
        have hholders := holders_set_add hget phase'
        omega
      · rw [heffect.count_of_ne hid, holders_set_of_ne hget phase' hid]
        exact hcovered
    · intro deletion hdeletion hlive
      rw [heffect.deleting]
      exact h.marked deletion hdeletion hlive
    · intro deletion hdeletion hphase
      have hzero := h.drained deletion hdeletion hphase
      by_cases hid : deletion.sandboxId = operation.sandboxId
      · have hmarked := h.marked deletion hdeletion (live_of_deleting hphase)
        rw [hid] at hmarked hzero ⊢
        exact Nat.le_zero.mp ((heffect.count_le_of_marked hmarked).trans_eq hzero)
      · rw [heffect.count_of_ne hid]
        exact hzero

theorem exact_operation (h : Exact σ) (index : Nat) (event : OperationEvent)
    (hmeets : attentive σ (.operation index event) = true) :
    Exact (step σ (.operation index event)) := by
  rcases operationEvent_cases σ index event with hsame | ⟨operation, pins', phase', hget, hstep, hnew⟩
  · rw [hsame]
    exact h
  · rw [hnew]
    have hmem : operation ∈ σ.operations := List.mem_of_getElem? hget
    obtain ⟨lost, heffect, hkept⟩ := (operationStep_effect hstep).effect
    have hkeeps : event = .cancel → losesPinWhenCancelled operation.phase = false := by
      rintro rfl
      simpa [attentive, hget] using hmeets
    obtain ⟨rfl, hattended⟩ := hkept (h.attended operation hmem) hkeeps
    constructor
    · exact Processes.forall_mem_set h.attended index hattended
    · intro other
      have hbefore := h.counted other
      simp only [State.holders] at hbefore ⊢
      by_cases hid : other = operation.sandboxId
      · subst hid
        have hcount := heffect.count_add fun hholds => by
          rw [h.counted]
          exact holders_pos hmem hholds
        have hholders := holders_set_add hget phase'
        simp only [Bool.false_eq_true, if_false] at hcount
        omega
      · rw [heffect.count_of_ne hid, holders_set_of_ne hget phase' hid]
        exact hbefore

/-! ## The other steps -/

theorem holds_arrive (kind : OperationKind) (sandboxId other : String) :
    (Operation.arrive kind sandboxId).holds other = false := by
  cases kind <;> simp [Operation.arrive, Operation.holds, Phase.holdsPin]

theorem holders_request (σ : State) (kind : OperationKind) (sandboxId other : String) :
    (step σ (.request kind sandboxId)).holders other = σ.holders other := by
  simp [State.holders, step, holds_arrive]

variable {sandboxId : String}

theorem drained_of_drainPhase (h : drainPhase pins sandboxId = .deleting) : pins.count sandboxId = 0 := by
  unfold drainPhase at h
  split at h
  · rename_i hdrained
    simpa [SandboxOperationPins.drained] using hdrained
  · cases h

theorem apart_beginDelete (h : Apart σ) (source : DeletionSource) (sandboxId : String) :
    Apart (step σ (.beginDelete source sandboxId)) where
  covered := h.covered
  marked := by
    intro deletion hmem hlive
    apply (SandboxOperationPins.mem_deleting_markDeleting _ _ _).mpr
    rcases List.mem_append.mp hmem with hold | hnew
    · exact .inr (h.marked deletion hold hlive)
    · rw [List.mem_singleton.mp hnew]
      exact .inl rfl
  drained := by
    intro deletion hmem hphase
    rcases List.mem_append.mp hmem with hold | hnew
    · exact h.drained deletion hold hphase
    · rw [List.mem_singleton.mp hnew] at hphase ⊢
      exact drained_of_drainPhase hphase

theorem apart_drain (h : Apart σ) (index : Nat) : Apart (step σ (.drain index)) := by
  simp only [step, State.drain]
  split
  · exact h
  · rename_i deletion hget
    split
    · rename_i hdraining
      have hmem : deletion ∈ σ.deletions := List.mem_of_getElem? hget
      refine ⟨h.covered, ?_, ?_⟩
      · apply Processes.forall_mem_set h.marked
        intro _
        apply h.marked deletion hmem
        simp [Deletion.live, hdraining]
      · apply Processes.forall_mem_set h.drained
        intro hphase
        exact drained_of_drainPhase hphase
    · exact h

theorem not_overlapped {deletions : List Deletion}
    (h : overlapped deletions index sandboxId = false) {other : Nat}
    (hget : deletions[other]? = some deletion) (hne : other ≠ index) (hlive : deletion.live) :
    deletion.sandboxId ≠ sandboxId := by
  intro hid
  have hrange : other ∈ List.range deletions.length := by
    have hlt := (List.getElem?_eq_some_iff.mp hget).1
    simpa using hlt
  have hnone := List.any_eq_false.mp h other hrange
  simp [hne, hget, hid, hlive] at hnone

theorem apart_endDelete (h : Apart σ) (index : Nat)
    (hmeets : separated σ (.endDelete index) = true) : Apart (step σ (.endDelete index)) := by
  simp only [step, State.endDelete]
  split
  · exact h
  · rename_i ended hget
    split
    · rename_i hdeleting
      have hapart : overlapped σ.deletions index ended.sandboxId = false := by
        simpa [separated, hget] using hmeets
      refine ⟨h.covered, ?_, ?_⟩
      · intro deletion hmem hlive
        obtain ⟨other, hother⟩ := List.getElem?_of_mem hmem
        by_cases hne : other = index
        · subst hne
          have hlt := (List.getElem?_eq_some_iff.mp hget).1
          rw [List.getElem?_set_self hlt] at hother
          cases hother
          simp [Deletion.live] at hlive
        · rw [List.getElem?_set_ne (Ne.symm hne)] at hother
          apply (SandboxOperationPins.mem_deleting_endDelete _ _ _).mpr
          exact ⟨not_overlapped hapart hother hne hlive,
            h.marked deletion (List.mem_of_getElem? hother) hlive⟩
      · apply Processes.forall_mem_set h.drained
        intro hphase
        cases hphase
    · exact h

theorem step_apart (σ : State) (a : Action) (hmeets : separated σ a = true) (h : Apart σ) :
    Apart (step σ a) := by
  cases a with
  | request kind sandboxId =>
    refine ⟨?_, h.marked, h.drained⟩
    intro other
    rw [holders_request]
    exact h.covered other
  | operation index event => exact apart_operation h index event
  | beginDelete source sandboxId => exact apart_beginDelete h source sandboxId
  | drain index => exact apart_drain h index
  | endDelete index => exact apart_endDelete h index hmeets

theorem count_drain (σ : State) (index : Nat) : (step σ (.drain index)).pins.count = σ.pins.count ∧
      (step σ (.drain index)).operations = σ.operations := by
  simp only [step, State.drain]
  repeat' split
  all_goals exact ⟨rfl, rfl⟩

theorem count_endDelete (σ : State) (index : Nat) :
    (step σ (.endDelete index)).pins.count = σ.pins.count ∧
      (step σ (.endDelete index)).operations = σ.operations := by
  simp only [step, State.endDelete]
  repeat' split
  all_goals exact ⟨rfl, rfl⟩

theorem Exact.of_frame {σ' : State} (h : Exact σ)
    (hframe : σ'.pins.count = σ.pins.count ∧ σ'.operations = σ.operations) : Exact σ' where
  attended := by
    rw [hframe.2]
    exact h.attended
  counted sandboxId := by
    rw [hframe.1, h.counted]
    simp only [State.holders, hframe.2]

theorem step_exact (σ : State) (a : Action) (hmeets : attentive σ a = true) (h : Exact σ) :
    Exact (step σ a) := by
  cases a with
  | request kind sandboxId =>
    constructor
    · intro operation hmem
      rcases List.mem_append.mp hmem with hold | hnew
      · exact h.attended operation hold
      · rw [List.mem_singleton.mp hnew]
        simp only [Operation.arrive]
        split <;> simp
    · intro other
      rw [holders_request]
      exact h.counted other
  | operation index event => exact exact_operation h index event hmeets
  | beginDelete source sandboxId => exact h.of_frame ⟨rfl, rfl⟩
  | drain index => exact h.of_frame (count_drain σ index)
  | endDelete index => exact h.of_frame (count_endDelete σ index)

theorem step_inv (σ : State) (a : Action) (hmeets : orderly σ a = true) (h : Inv σ) :
    Inv (step σ a) := by
  have hboth := (Bool.and_eq_true _ _).mp hmeets
  exact ⟨step_apart σ a hboth.1 h.toApart, step_exact σ a hboth.2 h.toExact⟩

/-! ## Runs -/

/-- In a run whose steps are all orderly every state reached has the barrier and the counts. -/
theorem barrier_of_orderly (run : List Action)
    (hrun : Transition.Guarded step (fun σ a => orderly σ a = true) State.initial run) :
    Holds (Transition.exec step State.initial run) :=
  (Transition.exec_invariant_of_guarded step step_inv ⟨apart_initial, exact_initial⟩ hrun).holds

/-- A touch and a proxy request whose client leaves in the middle of the body, both drained
by a deletion. -/
def drainedRun : List Action :=
  [ .request .touch "s", .request .proxy "s", .operation 0 .acquire,
    .operation 1 .startWorker, .operation 1 .acquire, .beginDelete .reaper "s",
    .operation 1 (.proceed true), .operation 1 (.proceed true), .operation 1 (.proceed true),
    .operation 1 (.proceed true), .operation 0 (.proceed true), .drain 0,
    .operation 1 .cancel, .operation 1 (.proceed true), .drain 0, .endDelete 0 ]

theorem drainedRun_holds : Holds (Transition.exec step State.initial drainedRun) :=
  barrier_of_orderly drainedRun (by decide +kernel)

/-- Two `delete_sandbox` requests of one id: the first one ends, and a get request
enters while the second one is deleting. -/
def overlappingRun : List Action :=
  [ .beginDelete .endpoint "s", .beginDelete .endpoint "s", .endDelete 0,
    .request .get "s", .operation 0 .acquire ]

/-- The mark is a set without a count, so the first deletion to end opens the other one. -/
theorem overlapping_deletions_break_barrier :
    ¬ Holds (Transition.exec step State.initial overlappingRun) := by
  intro h
  have halone := (h.alone ⟨.endpoint, "s", .deleting⟩ (by decide +kernel) rfl).1
  have hfree := halone ⟨.get, "s", .pinned⟩ (by decide +kernel)
  revert hfree
  decide

end Barrier

end Yuanlei.Provisioner
