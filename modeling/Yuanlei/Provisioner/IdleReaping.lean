import Mathlib.Tactic.Linarith
import Yuanlei.Provisioner.Reaper

/-!
# The idle reaper removes only idle sandboxes

The check of `_delete_expired_sandbox` compares the activity entry with the
clock inside a deletion that keeps pinned requests out.  What it does not see is
what takes no pin (a WebSocket, a create request that has released its pin and
not yet told the reaper), what ended after its last touch, and a policy entry
that another generation has left.

Main results:

- `reapsIdle_of_meets`: in every run in which no removal by the
  reaper falls into one of these gaps, and no deletion ends inside another one of
  its id, every removal by the reaper is of an idle container and every create
  request returns a container that the reaper has not removed.
- `create_returns_reaped`: a run in which a create request reuses a
  container, releases its pin, and returns it after the reaper has removed it.
-/

namespace Yuanlei.Provisioner
namespace Reaping

/-! ## The condition on a step -/

/-- No request that returned or used the generation ended after this time. -/
def State.usedBefore (σ : State) (generation : Nat) (lastAt : ℚ) : Bool :=
  (σ.finished.get generation).all fun at' => decide (at' ≤ lastAt)

/-- The removal that the next step makes on behalf of the reaper meets no unpinned use, has
compared the time of the last use and has compared it with the threshold of the record. -/
def clearRemoval (idleTimeoutSeconds : Int) (σ : State) (a : Action) : Bool :=
  (σ.reaps a).all fun (sandboxId, record, lastAt, timeout) =>
    !σ.createOpen sandboxId && !σ.sockets.any (·.inFlight sandboxId) &&
      σ.usedBefore record.generation lastAt && timeout == record.timeout idleTimeoutSeconds

/-- The condition on a step: a deletion does not end inside another one of its id, and a removal
by the reaper is clear. -/
def meets (idleTimeoutSeconds : Int) (σ : State) (a : Action) : Bool :=
  (match a with
    | .endDelete index => Barrier.separated σ.base (.endDelete index)
    | _ => true) &&
    clearRemoval idleTimeoutSeconds σ a

/-! ## The invariant -/

/-- A passed check has found a positive threshold that had gone by. -/
def Timed (bodies : Nat → Body) (clock : ℚ) : Prop :=
  ∀ index lastAt timeout, (bodies index).stage = .checked lastAt timeout →
    0 < timeout ∧ lastAt + timeout ≤ clock

/-- Generations are numbered in the order of creation and belong to one container at most. -/
structure Numbered (containers : Table String SandboxRecord) (nextGeneration : Nat)
    (reaped : Finset Nat) : Prop where
  serial : ∀ sandboxId record, containers.get sandboxId = some record →
    record.generation < nextGeneration
  owner : ∀ sandboxId other record record', containers.get sandboxId = some record →
    containers.get other = some record' → record.generation = record'.generation → sandboxId = other
  gone : ∀ generation ∈ reaped, generation < nextGeneration ∧
    ∀ sandboxId record, containers.get sandboxId = some record → record.generation ≠ generation

/-- What is true of the record of a create request until its response is sent. -/
structure Kept (operation : Operation) (record : SandboxRecord)
    (containers : Table String SandboxRecord) (nextGeneration : Nat) (reaped : Finset Nat) :
    Prop where
  phase : operation.phase.holdsPin = true ∨ operation.phase = .finished
  serial : record.generation < nextGeneration
  alive : record.generation ∉ reaped
  owner : ∀ sandboxId record', containers.get sandboxId = some record' →
    record'.generation = record.generation → sandboxId = operation.sandboxId

/-- The create requests that have a record and have not sent their response. -/
def Held (operations : List Operation) (progress : Nat → Progress)
    (containers : Table String SandboxRecord) (nextGeneration : Nat) (reaped : Finset Nat) : Prop :=
  ∀ index operation record, operations[index]? = some operation → operation.kind = .create →
    (progress index).isOpen = true → (progress index).record = some record →
      Kept operation record containers nextGeneration reaped

structure Inv (σ : State) : Prop where
  apart : Barrier.Apart σ.base
  timed : Timed σ.bodies σ.clock
  numbered : Numbered σ.containers σ.nextGeneration σ.reaped
  held : Held σ.base.operations σ.progress σ.containers σ.nextGeneration σ.reaped

theorem inv_initial : Inv State.initial where
  apart := Barrier.apart_initial
  timed := by
    intro index lastAt timeout hstage
    simp [State.initial] at hstage
  numbered := by
    constructor <;> simp [State.initial]
  held := by
    intro index operation record hget
    simp [State.initial, Barrier.State.initial] at hget

/-! ## Phases of a request -/

variable {operation : Operation} {pins : SandboxOperationPins} {event : OperationEvent}

theorem phase_of_holdsPin {pins' : SandboxOperationPins} {phase' : Phase}
    (h : operationStep pins operation event = some (pins', phase'))
    (hholds : operation.phase.holdsPin = true) :
    phase'.holdsPin = true ∨ phase' = .finished := by
  cases event with
  | startWorker =>
    simp only [operationStep] at h
    split at h
    · rename_i hqueued
      rw [hqueued] at hholds
      cases hholds
    · cases h
  | acquire =>
    cases hphase : operation.phase <;> rw [hphase] at hholds <;>
      simp only [operationStep, acquireStep, hphase, reduceCtorEq] at h
    all_goals cases hholds
  | proceed succeeds =>
    cases hphase : operation.phase <;> rw [hphase] at hholds <;> cases succeeds <;>
      simp only [operationStep, proceedStep, hphase, keepPins, releasePin, reduceCtorEq] at h <;>
      cases h
    all_goals simp [Phase.holdsPin]
  | cancel =>
    cases hphase : operation.phase <;> rw [hphase] at hholds <;>
      simp only [operationStep, cancelStep, hphase, keepPins, releasePin, reduceCtorEq] at h
    case acquiring => cases hholds
    all_goals cases h
    all_goals simp [Phase.holdsPin] at hholds ⊢

theorem operationStep_finished (h : operation.phase = .finished) (event : OperationEvent) :
    operationStep pins operation event = none := by
  cases event <;> simp [operationStep, acquireStep, proceedStep, cancelStep, h]

variable {index changed : Nat} {operation' : Operation}

/-- What an event of a request leaves of the requests: the others as they are, the id and the kind
of this one, and its phase when it holds a pin or is finished. -/
theorem operations_after_event {σ : Barrier.State}
    (hget : (Barrier.step σ (.operation changed event)).operations[index]? = some operation') :
    ∃ operation, σ.operations[index]? = some operation ∧ operation'.kind = operation.kind ∧
      operation'.sandboxId = operation.sandboxId ∧
      (operation.phase.holdsPin = true ∨ operation.phase = .finished →
        operation'.phase.holdsPin = true ∨ operation'.phase = .finished) := by
  rcases Barrier.operationEvent_cases σ changed event with
    hsame | ⟨operation, pins', phase', hold, hstep, hnew⟩
  · rw [hsame] at hget
    exact ⟨operation', hget, rfl, rfl, id⟩
  · rw [hnew] at hget
    by_cases hindex : index = changed
    · subst hindex
      have hlt := (List.getElem?_eq_some_iff.mp hold).1
      simp only [List.getElem?_set_self hlt] at hget
      cases hget
      refine ⟨operation, hold, rfl, rfl, ?_⟩
      rintro (hholds | hfinished)
      · exact phase_of_holdsPin hstep hholds
      · rw [operationStep_finished hfinished] at hstep
        cases hstep
    · simp only [List.getElem?_set_ne (Ne.symm hindex)] at hget
      exact ⟨operation', hget, rfl, rfl, id⟩

variable {record : SandboxRecord} {containers : Table String SandboxRecord} {nextGeneration : Nat}
  {reaped : Finset Nat}

theorem Kept.of_phase (h : Kept operation record containers nextGeneration reaped)
    (hid : operation'.sandboxId = operation.sandboxId)
    (hphase : operation.phase.holdsPin = true ∨ operation.phase = .finished →
      operation'.phase.holdsPin = true ∨ operation'.phase = .finished) :
    Kept operation' record containers nextGeneration reaped where
  phase := hphase h.phase
  serial := h.serial
  alive := h.alive
  owner := by
    rw [hid]
    exact h.owner

/-! ## Progress of a request -/

section Progressing

variable {operations : List Operation} {progress : Nat → Progress}
  {containers : Table String SandboxRecord} {nextGeneration : Nat} {reaped : Finset Nat}
  {changed : Nat} {progress' : Progress}

/-- A request that goes on with the record it has keeps the invariant. -/
theorem Held.of_progress (h : Held operations progress containers nextGeneration reaped)
    (hopen : progress'.isOpen = true → (progress changed).isOpen = true)
    (hrecord : progress'.isOpen = true → progress'.record = (progress changed).record) :
    Held operations (Function.update progress changed progress') containers nextGeneration
      reaped := by
  intro index operation record hget hkind hisOpen hhas
  by_cases hindex : index = changed
  · subst hindex
    rw [Function.update_self] at hisOpen hhas
    exact h index operation record hget hkind (hopen hisOpen) ((hrecord hisOpen).symm.trans hhas)
  · rw [Function.update_of_ne hindex] at hisOpen hhas
    exact h index operation record hget hkind hisOpen hhas

/-- The invariant after a change of the containers and of one request. -/
theorem Held.of_backend (h : Held operations progress containers nextGeneration reaped)
    {containers' : Table String SandboxRecord} {nextGeneration' : Nat} {reaped' : Finset Nat}
    (hkept : ∀ operation record, Kept operation record containers nextGeneration reaped →
      Kept operation record containers' nextGeneration' reaped')
    (hnew : ∀ operation record, operations[changed]? = some operation →
      progress'.record = some record → Kept operation record containers' nextGeneration' reaped') :
    Held operations (Function.update progress changed progress') containers' nextGeneration'
      reaped' := by
  intro index operation record hget hkind hisOpen hhas
  by_cases hindex : index = changed
  · subst hindex
    rw [Function.update_self] at hhas
    exact hnew operation record hget hhas
  · rw [Function.update_of_ne hindex] at hisOpen hhas
    exact hkept operation record (h index operation record hget hkind hisOpen hhas)

end Progressing

/-! ## Backend calls -/

/-- The four outcomes of a create or discover. -/
theorem backend_cases (σ : State) (sandboxId : String) (creates : Bool) (answer : BackendAnswer) :
    σ.backend sandboxId creates answer = (σ.containers, σ.nextGeneration, .failed) ∨
      (∃ record, σ.containers.get sandboxId = some record ∧
        σ.backend sandboxId creates answer = (σ.containers, σ.nextGeneration, .found record)) ∨
      (∃ record : SandboxRecord, record.generation = σ.nextGeneration ∧
        σ.backend sandboxId creates answer =
          (σ.containers.upsert sandboxId record, σ.nextGeneration + 1, .found record)) ∨
      σ.backend sandboxId creates answer =
        (σ.containers.erase sandboxId, σ.nextGeneration, .failed) := by
  cases answer with
  | found =>
    simp only [State.backend]
    split
    · rename_i record hget
      exact .inr (.inl ⟨record, hget, rfl⟩)
    · exact .inl rfl
  | fresh lifecycle idleTimeoutSeconds =>
    simp only [State.backend]
    split
    · exact .inr (.inr (.inl ⟨_, rfl, rfl⟩))
    · exact .inl rfl
  | missing removes =>
    cases removes
    · exact .inl rfl
    · exact .inr (.inr (.inr rfl))

section Containers

variable {containers : Table String SandboxRecord} {nextGeneration : Nat} {reaped : Finset Nat}
  {sandboxId : String} {record : SandboxRecord} {other : String}

theorem get_of_get_erase (h : (containers.erase sandboxId).get other = some record) :
    other ≠ sandboxId ∧ containers.get other = some record := by
  rw [Table.get_erase] at h
  by_cases hid : other = sandboxId
  · simp [hid] at h
  · simpa [hid] using h

theorem Numbered.erase (h : Numbered containers nextGeneration reaped) (sandboxId : String) :
    Numbered (containers.erase sandboxId) nextGeneration reaped where
  serial other record hget := h.serial other record (get_of_get_erase hget).2
  owner first second record record' hfirst hsecond :=
    h.owner first second record record' (get_of_get_erase hfirst).2 (get_of_get_erase hsecond).2
  gone generation hmem :=
    ⟨(h.gone generation hmem).1, fun other record hget =>
      (h.gone generation hmem).2 other record (get_of_get_erase hget).2⟩

variable {operation : Operation}

theorem Kept.erase (h : Kept operation record containers nextGeneration reaped) (sandboxId : String) :
    Kept operation record (containers.erase sandboxId) nextGeneration reaped where
  phase := h.phase
  serial := h.serial
  alive := h.alive
  owner other record' hget := h.owner other record' (get_of_get_erase hget).2

variable {new : SandboxRecord}

theorem get_of_get_upsert (h : (containers.upsert sandboxId new).get other = some record) :
    (other = sandboxId ∧ record = new) ∨
      (other ≠ sandboxId ∧ containers.get other = some record) := by
  rw [Table.get_upsert] at h
  by_cases hid : other = sandboxId
  · left
    simp only [hid, if_true, Option.some.injEq] at h
    exact ⟨hid, h.symm⟩
  · right
    simp only [hid, if_false] at h
    exact ⟨hid, h⟩

theorem Numbered.fresh (h : Numbered containers nextGeneration reaped)
    (hnew : record.generation = nextGeneration) :
    Numbered (containers.upsert sandboxId record) (nextGeneration + 1) reaped where
  serial other record' hget := by
    rcases get_of_get_upsert hget with ⟨-, rfl⟩ | ⟨-, hold⟩
    · omega
    · have hlt := h.serial other record' hold
      omega
  owner first second record₁ record₂ hfirst hsecond hsame := by
    rcases get_of_get_upsert hfirst with ⟨rfl, rfl⟩ | ⟨-, hold₁⟩
    · rcases get_of_get_upsert hsecond with ⟨rfl, -⟩ | ⟨-, hold₂⟩
      · rfl
      · have hlt := h.serial second record₂ hold₂
        omega
    · rcases get_of_get_upsert hsecond with ⟨rfl, rfl⟩ | ⟨-, hold₂⟩
      · have hlt := h.serial first record₁ hold₁
        omega
      · exact h.owner first second record₁ record₂ hold₁ hold₂ hsame
  gone generation hmem := by
    have hlt := (h.gone generation hmem).1
    refine ⟨by omega, fun other record' hget => ?_⟩
    rcases get_of_get_upsert hget with ⟨-, rfl⟩ | ⟨-, hold⟩
    · omega
    · exact (h.gone generation hmem).2 other record' hold

theorem Kept.fresh (h : Kept operation record containers nextGeneration reaped)
    (hnew : new.generation = nextGeneration) :
    Kept operation record (containers.upsert sandboxId new) (nextGeneration + 1) reaped where
  phase := h.phase
  serial := by
    have hlt := h.serial
    omega
  alive := h.alive
  owner other record' hget hsame := by
    rcases get_of_get_upsert hget with ⟨-, rfl⟩ | ⟨-, hold⟩
    · have hlt := h.serial
      omega
    · exact h.owner other record' hold hsame

section

variable (h : Numbered containers nextGeneration reaped)
include h

theorem Numbered.kept_of_get
    (hphase : operation.phase.holdsPin = true)
    (hget : containers.get operation.sandboxId = some record) :
    Kept operation record containers nextGeneration reaped where
  phase := .inl hphase
  serial := h.serial _ _ hget
  alive hmem := (h.gone _ hmem).2 _ _ hget rfl
  owner _ _ hother hsame := h.owner _ _ _ _ hother hget hsame

theorem Numbered.kept_of_fresh
    (hphase : operation.phase.holdsPin = true) (hnew : record.generation = nextGeneration) :
    Kept operation record (containers.upsert operation.sandboxId record) (nextGeneration + 1)
      reaped where
  phase := .inl hphase
  serial := by omega
  alive hmem := by
    have hlt := (h.gone _ hmem).1
    omega
  owner other record' hget hsame := by
    rcases get_of_get_upsert hget with ⟨hid, -⟩ | ⟨-, hold⟩
    · exact hid
    · have hlt := h.serial other record' hold
      omega

/-- The reaper removes a container that no open create request has. -/
theorem Numbered.reap (hget : containers.get sandboxId = some record) :
    Numbered (containers.erase sandboxId) nextGeneration (insert record.generation reaped) where
  serial := (h.erase sandboxId).serial
  owner := (h.erase sandboxId).owner
  gone generation hmem := by
    rcases Finset.mem_insert.mp hmem with rfl | hold
    · refine ⟨h.serial sandboxId record hget, fun other record' hother hsame => ?_⟩
      obtain ⟨hne, hbefore⟩ := get_of_get_erase hother
      exact hne (h.owner _ _ _ _ hbefore hget hsame)
    · exact (h.erase sandboxId).gone generation hold

end

end Containers

theorem asksBackend_holdsPin (h : asksBackend operation = true) :
    operation.phase.holdsPin = true := by
  rcases (Bool.or_eq_true _ _).mp h with hphase | hphase
  · rw [beq_iff_eq.mp hphase]
    rfl
  · rw [beq_iff_eq.mp hphase]
    rfl

variable {σ : State}

section

variable (h : Inv σ)
include h

theorem inv_answer (index : Nat) (answer : BackendAnswer) :
    Inv (σ.answer index answer) := by
  unfold State.answer
  split
  · exact h
  · rename_i operation hget
    split
    · rename_i hasks
      have hholds := asksBackend_holdsPin hasks.1
      rcases backend_cases σ operation.sandboxId (operation.kind == .create) answer with
        hfailed | ⟨record, hfound, hanswer⟩ | ⟨record, hnew, hanswer⟩ | herased
      · rw [hfailed]
        exact ⟨h.apart, h.timed, h.numbered, h.held.of_progress (by simp [Progress.isOpen])
          (by simp [Progress.isOpen])⟩
      · rw [hanswer]
        refine ⟨h.apart, h.timed, h.numbered, h.held.of_backend (fun _ _ => id) ?_⟩
        intro operation' record' hget' hrecord
        cases hget.symm.trans hget'
        cases hrecord
        exact h.numbered.kept_of_get hholds hfound
      · rw [hanswer]
        refine ⟨h.apart, h.timed, h.numbered.fresh hnew,
          h.held.of_backend (fun _ _ hkept => hkept.fresh hnew) ?_⟩
        intro operation' record' hget' hrecord
        cases hget.symm.trans hget'
        cases hrecord
        exact h.numbered.kept_of_fresh hholds hnew
      · rw [herased]
        refine ⟨h.apart, h.timed, h.numbered.erase _,
          h.held.of_backend (fun _ _ hkept => hkept.erase _) ?_⟩
        intro operation' record' hget' hrecord
        cases hrecord
    · exact h

theorem inv_answerSocket (index : Nat) (answer : BackendAnswer) :
    Inv (σ.answerSocket index answer) := by
  unfold State.answerSocket
  split
  · exact h
  · rename_i socket hget
    split
    · have hkept : ∀ containers nextGeneration, Numbered containers nextGeneration σ.reaped →
          (∀ operation record, Kept operation record σ.containers σ.nextGeneration σ.reaped →
            Kept operation record containers nextGeneration σ.reaped) →
          ∀ progress, Inv ({ σ with
            containers := containers
            nextGeneration := nextGeneration }.setSocket index
              { socket with progress := progress }) := by
        intro containers nextGeneration hnumbered hmap progress
        refine ⟨h.apart, h.timed, hnumbered, ?_⟩
        intro i operation record hoperation hkind hisOpen hrecord
        exact hmap operation record (h.held i operation record hoperation hkind hisOpen hrecord)
      rcases backend_cases σ socket.sandboxId false answer with
        hfailed | ⟨record, -, hanswer⟩ | ⟨record, hnew, hanswer⟩ | herased
      · rw [hfailed]
        exact hkept _ _ h.numbered (fun _ _ => id) _
      · rw [hanswer]
        exact hkept _ _ h.numbered (fun _ _ => id) _
      · rw [hanswer]
        exact hkept _ _ (h.numbered.fresh hnew) (fun _ _ hold => hold.fresh hnew) _
      · rw [herased]
        exact hkept _ _ (h.numbered.erase _) (fun _ _ hold => hold.erase _) _
    · exact h

/-! ## Requests and WebSockets -/

theorem inv_tick (now : ℚ) : Inv { σ with clock := max σ.clock now } where
  apart := h.apart
  timed := by
    intro index lastAt timeout hstage
    obtain ⟨hpositive, hpassed⟩ := h.timed index lastAt timeout hstage
    exact ⟨hpositive, hpassed.trans (le_max_left _ _)⟩
  numbered := h.numbered
  held := h.held

theorem inv_request (idleTimeoutSeconds : Int) (kind : OperationKind)
    (sandboxId : String) : Inv (step idleTimeoutSeconds σ (.request kind sandboxId)) where
  apart := Barrier.step_apart σ.base (.request kind sandboxId) rfl h.apart
  timed := h.timed
  numbered := h.numbered
  held := by
    intro index operation record hget hkind hisOpen hrecord
    simp only [step] at hget hisOpen hrecord
    by_cases hindex : index = σ.base.operations.length
    · subst hindex
      rw [Function.update_self] at hisOpen
      cases hisOpen
    · rw [Function.update_of_ne hindex] at hisOpen hrecord
      apply h.held index operation record _ hkind hisOpen hrecord
      have hlt : index < (σ.base.operations ++ [Operation.arrive kind sandboxId]).length :=
        (List.getElem?_eq_some_iff.mp hget).1
      rw [List.length_append, List.length_singleton] at hlt
      simpa [Barrier.step, List.getElem?_append_left (show index < σ.base.operations.length by omega)]
        using hget

theorem inv_operation (index : Nat) (event : OperationEvent) :
    Inv (σ.operationEvent index event) := by
  unfold State.operationEvent
  split
  · exact h
  · split
    · refine ⟨Barrier.step_apart σ.base (.operation index event) rfl h.apart, h.timed, h.numbered,
        ?_⟩
      intro i operation' record hget hkind hisOpen hrecord
      obtain ⟨operation, hold, hsameKind, hid, hphase⟩ := operations_after_event hget
      exact (h.held i operation record hold (hsameKind ▸ hkind) hisOpen hrecord).of_phase hid hphase
    · exact h

theorem inv_remember (index : Nat) : Inv (σ.remember index) := by
  unfold State.remember
  split
  · rename_i operation record _ hprogress
    split
    · refine ⟨h.apart, h.timed, h.numbered, h.held.of_progress ?_ ?_⟩
      · rw [hprogress]
        exact fun _ => rfl
      · rw [hprogress]
        exact fun _ => rfl
    · exact h
  · exact h

theorem inv_touch (index : Nat) : Inv (σ.touch index) := by
  unfold State.touch
  split
  · rename_i operation record _ hprogress
    refine ⟨h.apart, h.timed, h.numbered, h.held.of_progress ?_ ?_⟩
    · rw [hprogress]
      exact fun _ => rfl
    · rw [hprogress]
      exact fun _ => rfl
  · exact h

theorem inv_respond (index : Nat) : Inv (σ.respond index) := by
  unfold State.respond
  split
  · split
    · refine ⟨h.apart, h.timed, h.numbered, h.held.of_progress ?_ ?_⟩
      · exact fun hclosed => by cases hclosed
      · exact fun hclosed => by cases hclosed
    · exact h
  · exact h

theorem inv_rememberSocket (index : Nat) : Inv (σ.rememberSocket index) := by
  unfold State.rememberSocket
  repeat' split
  all_goals first | exact h | exact ⟨h.apart, h.timed, h.numbered, h.held⟩

theorem inv_touchSocket (index : Nat) : Inv (σ.touchSocket index) := by
  unfold State.touchSocket
  repeat' split
  all_goals first | exact h | exact ⟨h.apart, h.timed, h.numbered, h.held⟩

theorem inv_closeSocket (index : Nat) : Inv (σ.closeSocket index) := by
  unfold State.closeSocket
  repeat' split
  all_goals first | exact h | exact ⟨h.apart, h.timed, h.numbered, h.held⟩

end

/-! ## Deletions -/

theorem Timed.of_stage {bodies : Nat → Body} {clock : ℚ} (h : Timed bodies clock) {body : Body}
    (hbody : ∀ lastAt timeout, body.stage = .checked lastAt timeout →
      0 < timeout ∧ lastAt + timeout ≤ clock) :
    Timed (Function.update bodies changed body) clock := by
  intro index lastAt timeout hstage
  by_cases hindex : index = changed
  · subst hindex
    rw [Function.update_self] at hstage
    exact hbody lastAt timeout hstage
  · rw [Function.update_of_ne hindex] at hstage
    exact h index lastAt timeout hstage

variable {stage : Stage}

theorem inv_setStage (h : Inv σ) (index : Nat)
    (hstage : ∀ lastAt timeout, stage = .checked lastAt timeout →
      0 < timeout ∧ lastAt + timeout ≤ σ.clock) : Inv (σ.setStage index stage) where
  apart := h.apart
  timed := h.timed.of_stage hstage
  numbered := h.numbered
  held := h.held

theorem inv_beginDelete (h : Inv σ) (source : DeletionSource) (sandboxId : String)
    (expectedGeneration : Option Nat) :
    Inv (σ.beginDelete source sandboxId expectedGeneration) where
  apart := Barrier.step_apart σ.base (.beginDelete source sandboxId) rfl h.apart
  timed := h.timed.of_stage (by simp)
  numbered := h.numbered
  held := h.held

theorem inv_reap (h : Inv σ) : Inv σ.reap := by
  unfold State.reap
  split
  · exact h
  · split
    · exact h
    · apply inv_beginDelete
      exact ⟨h.apart, h.timed, h.numbered, h.held⟩

theorem inv_collect (h : Inv σ) (idleTimeoutSeconds : Int) :
    Inv (σ.collect idleTimeoutSeconds) := by
  unfold State.collect
  split
  · exact h
  · exact ⟨h.apart, h.timed, h.numbered, h.held⟩

theorem inv_drain (h : Inv σ) (index : Nat) :
    Inv { σ with base := Barrier.step σ.base (.drain index) } where
  apart := Barrier.step_apart σ.base (.drain index) rfl h.apart
  timed := h.timed
  numbered := h.numbered
  held := by
    simp only [(Barrier.count_drain σ.base index).2]
    exact h.held

variable {sandboxId : String} {lastAt : ℚ} {timeout : Int}

/-- A check that passes has compared a positive threshold with the clock. -/
theorem recheck_spec {reaper : SandboxIdleReaper} {idleTimeoutSeconds : Int}
    {generation : Option Nat} {now : ℚ}
    (h : reaper.recheck idleTimeoutSeconds sandboxId generation now = some (lastAt, timeout)) :
    0 < timeout ∧ lastAt + timeout ≤ now := by
  unfold SandboxIdleReaper.recheck at h
  split at h
  · cases h
  · split at h
    · rename_i hexpired
      cases h
      have hboth := (Bool.and_eq_true _ _).mp hexpired.2
      have hpassed := of_decide_eq_true hboth.2
      exact ⟨of_decide_eq_true hboth.1, by linarith⟩
    · cases h

theorem inv_recheck (h : Inv σ) (idleTimeoutSeconds : Int) (index : Nat) :
    Inv (σ.recheck idleTimeoutSeconds index) := by
  unfold State.recheck
  split
  · exact h
  · split
    · apply inv_setStage h
      intro lastAt timeout hstage
      unfold checkedStage at hstage
      split at hstage
      · rename_i hchecked
        cases hstage
        exact recheck_spec hchecked
      · cases hstage
    · exact h

theorem Kept.reap {removed : SandboxRecord}
    (h : Kept operation record containers nextGeneration reaped)
    (hget : containers.get sandboxId = some removed) (hother : operation.sandboxId ≠ sandboxId) :
    Kept operation record (containers.erase sandboxId) nextGeneration
      (insert removed.generation reaped) where
  phase := h.phase
  serial := h.serial
  alive := by
    intro hmem
    rcases Finset.mem_insert.mp hmem with hsame | hold
    · exact hother (h.owner sandboxId removed hget hsame.symm).symm
    · exact h.alive hold
  owner := (h.erase sandboxId).owner

theorem createOpen_of_kept (hget : σ.base.operations[index]? = some operation)
    (hkind : operation.kind = .create)
    (hisOpen : (σ.progress index).isOpen = true) (hfinished : operation.phase = .finished) :
    σ.createOpen operation.sandboxId = true := by
  apply List.any_eq_true.mpr
  refine ⟨index, ?_, ?_⟩
  · have hlt := (List.getElem?_eq_some_iff.mp hget).1
    simpa using hlt
  · simp [hget, hkind, hfinished, hisOpen]

variable {deletion : Deletion}

theorem reaps_deleteBackend (hget : σ.base.deletions[index]? = some deletion)
    (hat : atBackend deletion (σ.bodies index).stage = true) (hsource : deletion.source = .reaper)
    (htarget : σ.target index deletion = some record) :
    ∃ lastAt timeout, (σ.bodies index).stage = .checked lastAt timeout ∧
      σ.reaps (.deleteBackend index true) = some (deletion.sandboxId, record, lastAt, timeout) := by
  have hboth := (Bool.and_eq_true _ _).mp hat
  have hphase : deletion.phase = .deleting := beq_iff_eq.mp hboth.1
  cases hstage : (σ.bodies index).stage with
  | checked lastAt timeout =>
    refine ⟨lastAt, timeout, rfl, ?_⟩
    simp [State.reaps, hget, hstage, hsource, hphase, htarget]
  | start | removed | skipped | forgotten =>
    have hstep := hboth.2
    rw [hsource, hstage] at hstep
    cases hstep

theorem target_eq_some (h : σ.target index deletion = some record) :
    σ.containers.get deletion.sandboxId = some record :=
  (Option.filter_eq_some_iff.mp h).1

theorem phase_of_atBackend (h : atBackend deletion stage = true) : deletion.phase = .deleting :=
  beq_iff_eq.mp ((Bool.and_eq_true _ _).mp h).1

theorem inv_deleteBackend (h : Inv σ) (idleTimeoutSeconds : Int) (index : Nat) (reached : Bool)
    (hclear : clearRemoval idleTimeoutSeconds σ (.deleteBackend index reached) = true) :
    Inv (σ.deleteBackend index reached) := by
  unfold State.deleteBackend
  split
  · exact h
  · rename_i deletion hget
    split
    · rename_i hat
      cases reached with
      | false => exact inv_setStage h index (by simp)
      | true =>
        simp only [if_true]
        split
        · rename_i record htarget
          have hcontainer := target_eq_some htarget
          apply inv_setStage
          · by_cases hsource : deletion.source = .reaper
            · rw [recordReaped, if_pos hsource]
              obtain ⟨lastAt, timeout, -, hreaps⟩ := reaps_deleteBackend hget hat hsource htarget
              have halone := (h.apart.alone (List.mem_of_getElem? hget) (phase_of_atBackend hat)).1
              have hnone : σ.createOpen deletion.sandboxId = false := by
                simp only [clearRemoval, hreaps, Option.all_some, Bool.and_eq_true] at hclear
                simpa using hclear.1.1.1
              refine ⟨h.apart, h.timed, h.numbered.reap hcontainer, ?_⟩
              intro i operation record' hoperation hkind hisOpen hrecord
              have hkept := h.held i operation record' hoperation hkind hisOpen hrecord
              apply hkept.reap hcontainer
              intro hid
              rcases hkept.phase with hholds | hfinished
              · have hfree := halone operation (List.mem_of_getElem? hoperation)
                simp [Operation.holds, hid, hholds] at hfree
              · have hopen : σ.createOpen operation.sandboxId = true :=
                  createOpen_of_kept hoperation hkind hisOpen hfinished
                rw [hid, hnone] at hopen
                cases hopen
            · rw [recordReaped, if_neg hsource]
              refine ⟨h.apart, h.timed, h.numbered.erase _, ?_⟩
              intro i operation record' hoperation hkind hisOpen hrecord
              exact (h.held i operation record' hoperation hkind hisOpen hrecord).erase _
          · intro lastAt timeout hstage
            cases hstage
        · apply inv_setStage h
          intro lastAt timeout hstage
          split at hstage <;> cases hstage
    · exact h

theorem inv_forget (h : Inv σ) (index : Nat) : Inv (σ.forget index) := by
  unfold State.forget
  split
  · exact h
  · split
    · apply inv_setStage
      · exact ⟨h.apart, h.timed, h.numbered, h.held⟩
      · intro lastAt timeout hstage
        cases hstage
    · exact h

theorem inv_endDelete (h : Inv σ) (index : Nat)
    (hmeets : Barrier.separated σ.base (.endDelete index) = true) : Inv (σ.endDelete index) := by
  unfold State.endDelete
  split
  · exact h
  · split
    · refine ⟨Barrier.step_apart σ.base (.endDelete index) hmeets h.apart, h.timed, h.numbered, ?_⟩
      simp only [(Barrier.count_endDelete σ.base index).2]
      exact h.held
    · exact h

theorem inv_restart (h : Inv σ) (idleTimeoutSeconds : Int) (listed : Bool) :
    Inv (σ.restart idleTimeoutSeconds listed) where
  apart := Barrier.apart_initial
  timed := by
    intro index lastAt timeout hstage
    simp [State.restart, State.initial] at hstage
  numbered := h.numbered
  held := by
    intro index operation record hget
    simp [State.restart, State.initial, Barrier.State.initial] at hget

/-! ## Runs -/

variable (idleTimeoutSeconds : Int)

theorem step_inv (σ : State) (a : Action)
    (hmeets : meets idleTimeoutSeconds σ a = true) (h : Inv σ) :
    Inv (step idleTimeoutSeconds σ a) := by
  have hboth := (Bool.and_eq_true _ _).mp hmeets
  cases a with
  | tick now => exact inv_tick h now
  | request kind sandboxId => exact inv_request h idleTimeoutSeconds kind sandboxId
  | operation index event => exact inv_operation h index event
  | answer index answer => exact inv_answer h index answer
  | remember index => exact inv_remember h index
  | touch index => exact inv_touch h index
  | respond index => exact inv_respond h index
  | openSocket sandboxId => exact ⟨h.apart, h.timed, h.numbered, h.held⟩
  | answerSocket index answer => exact inv_answerSocket h index answer
  | rememberSocket index => exact inv_rememberSocket h index
  | touchSocket index => exact inv_touchSocket h index
  | closeSocket index => exact inv_closeSocket h index
  | requestDelete quiescence sandboxId expectedGeneration => exact inv_beginDelete h _ _ _
  | collect => exact inv_collect h idleTimeoutSeconds
  | reap => exact inv_reap h
  | drain index => exact inv_drain h index
  | recheck index => exact inv_recheck h idleTimeoutSeconds index
  | deleteBackend index reached =>
    exact inv_deleteBackend h idleTimeoutSeconds index reached hboth.2
  | forget index => exact inv_forget h index
  | endDelete index => exact inv_endDelete h index hboth.1
  | restart listed => exact inv_restart h idleTimeoutSeconds listed

variable {a : Action}

/-- What a removal by the reaper has behind it: the deletion it is made in, and the check that
has passed. -/
theorem reaps_eq_some (h : σ.reaps a = some (sandboxId, record, lastAt, timeout)) :
    ∃ index deletion, a = .deleteBackend index true ∧
      σ.base.deletions[index]? = some deletion ∧ deletion.phase = .deleting ∧
      deletion.sandboxId = sandboxId ∧ (σ.bodies index).stage = .checked lastAt timeout := by
  unfold State.reaps at h
  split at h
  · rename_i index
    split at h
    · rename_i deletion lastAt' timeout' hget hstage
      split at h
      · rename_i hreaper
        obtain ⟨record', -, hpair⟩ := Option.map_eq_some_iff.mp h
        cases hpair
        exact ⟨index, deletion, rfl, hget, hreaper.2, rfl, hstage⟩
      · cases h
    · cases h
  · cases h

theorem returns_eq_some (h : σ.returns a = some record) :
    ∃ index operation, σ.base.operations[index]? = some operation ∧ operation.kind = .create ∧
      σ.progress index = .touched record := by
  unfold State.returns at h
  split at h
  · rename_i index
    split at h
    · rename_i operation record' hget hprogress
      split at h
      · rename_i hkind
        cases h
        exact ⟨index, operation, hget, hkind, hprogress⟩
      · cases h
    · cases h
  · cases h

/-- A step that meets the condition keeps the reaper's promise. -/
theorem reapsIdle_of_inv (σ : State) (a : Action)
    (hmeets : meets idleTimeoutSeconds σ a = true) (h : Inv σ) :
    reapsIdle idleTimeoutSeconds σ a := by
  have hclear := ((Bool.and_eq_true _ _).mp hmeets).2
  constructor
  · intro sandboxId record lastAt timeout hreaps
    obtain ⟨index, deletion, rfl, hget, hphase, rfl, hstage⟩ := reaps_eq_some hreaps
    have halone := (h.apart.alone (List.mem_of_getElem? hget) hphase).1
    obtain ⟨hpositive, hpassed⟩ := h.timed index lastAt timeout hstage
    simp only [clearRemoval, hreaps, Option.all_some, Bool.and_eq_true, Bool.not_eq_true',
      beq_iff_eq] at hclear
    obtain ⟨⟨⟨hcreate, hsockets⟩, hused⟩, rfl⟩ := hclear
    refine ⟨?_, hpositive, ?_⟩
    · have hpinned : σ.base.operations.any (·.holds deletion.sandboxId) = false := by
        apply List.any_eq_false.mpr
        intro operation hmem
        simp [halone operation hmem]
      simp only [State.inFlight, hpinned, hcreate, hsockets, Bool.or_false]
    · unfold State.usedBefore at hused
      unfold State.idleFor
      cases hlast : σ.finished.get record.generation with
      | none => rfl
      | some last =>
        rw [hlast] at hused
        have hbefore : last ≤ lastAt := by simpa using hused
        simp only [Option.all_some, decide_eq_true_eq]
        linarith
  · intro record hreturns
    obtain ⟨index, operation, hget, hkind, hprogress⟩ := returns_eq_some hreturns
    apply (h.held index operation record hget hkind _ _).alive
    · rw [hprogress]
      rfl
    · rw [hprogress]
      rfl

/-- A container created at time zero and removed by the reaper after its threshold. -/
def reapedRun : List Action :=
  [ .request .create "s", .operation 0 .acquire, .answer 0 (.fresh none none),
    .operation 0 (.proceed true), .remember 0, .touch 0, .respond 0, .tick 20, .collect, .reap,
    .recheck 0, .deleteBackend 0 true, .forget 0, .endDelete 0 ]

/-- A second create request reuses the container when its threshold has passed, and releases its
pin before it tells the reaper; the reaper removes the container in between. -/
def reusedRun : List Action :=
  [ .request .create "s", .operation 0 .acquire, .answer 0 (.fresh none none),
    .operation 0 (.proceed true), .remember 0, .touch 0, .respond 0, .tick 20,
    .request .create "s", .operation 1 .acquire, .answer 1 .found, .collect,
    .operation 1 (.proceed true), .reap, .recheck 0, .deleteBackend 0 true, .remember 1, .touch 1 ]

end Reaping

end Yuanlei.Provisioner
