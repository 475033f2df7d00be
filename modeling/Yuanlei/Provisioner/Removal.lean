import Yuanlei.Provisioner.DockerSteps

/-!
# Removals are fenced and networks are not left behind

The lock of the id keeps every engine call of a create or delete together with
what it has looked up.  A discover looks the container up and later acts on the
name: the container that it removes, or for which it creates the network, may be
another one by then, or gone.

Main results:

- `removals_of_meets`: in every run in which no discover finds another
  container in place of the one it inspected when it removes it, or none when it
  creates the network, every removal is fenced and every idle state is tidy.
- `discover_leaks_network`: the discovery of a WebSocket that meets a deletion
  leaves a network without a container.
-/

namespace Yuanlei.Provisioner
namespace DockerSteps

open Docker (Container Config)

/-! ## The condition on a step -/

/-- A discover that looks a stale container up for its removal finds the one it inspected, or
none; a discover that creates the network finds a container. -/
def meets (σ : State) : Action → Bool
  | .advance index _ =>
    σ.threads[index]?.all fun thread =>
      match thread.role, thread.pc with
      | .discover _, .remove .lookup _ =>
        σ.shared.container.all fun container => thread.inspected == some container.id
      | .discover _, .ensure .create _ => σ.shared.container.isSome
      | _, _ => true
  | _ => true

/-! ## What a thread relies on -/

namespace Shared

/-- The id of the container that is there. -/
def containerId (shared : Shared) : Option Nat :=
  shared.container.map (·.id)

def networkId (shared : Shared) : Option Nat :=
  shared.network.map (·.id)

variable {shared : Shared} {id : Nat}

theorem containerWith_of_containerId (h : shared.containerId = some id) :
    ∃ container, shared.container = some container ∧ container.id = id ∧
      shared.containerWith id = some container := by
  obtain ⟨container, hcontainer, hid⟩ := Option.map_eq_some_iff.mp h
  refine ⟨container, hcontainer, hid, ?_⟩
  simp [containerWith, hcontainer, hid]

theorem networkWith_of_networkId (h : shared.networkId = some id) :
    ∃ network, shared.network = some network ∧ network.id = id ∧
      shared.networkWith id = some network := by
  obtain ⟨network, hnetwork, hid⟩ := Option.map_eq_some_iff.mp h
  refine ⟨network, hnetwork, hid, ?_⟩
  simp [networkWith, hnetwork, hid]

theorem containerId_of_containerWith {container : Container}
    (h : shared.containerWith id = some container) :
    shared.container = some container ∧ container.id = id ∧ shared.containerId = some id := by
  obtain ⟨hcontainer, hid⟩ := Option.filter_eq_some_iff.mp h
  have hsame := beq_iff_eq.mp hid
  exact ⟨hcontainer, hsame, by rw [containerId, hcontainer, Option.map_some, hsame]⟩

theorem networkId_of_networkWith {network : NetworkObject}
    (h : shared.networkWith id = some network) :
    shared.network = some network ∧ shared.networkId = some id := by
  obtain ⟨hnetwork, hid⟩ := Option.filter_eq_some_iff.mp h
  exact ⟨hnetwork, by rw [networkId, hnetwork, Option.map_some, beq_iff_eq.mp hid]⟩

theorem networkId_setConnected (shared : Shared) (connected : Bool) :
    (shared.setConnected connected).networkId = shared.networkId := by
  unfold setConnected networkId
  cases shared.network <;> rfl

end Shared

/-- Every network of the name is the provisioner's own. -/
def Owned (shared : Shared) : Prop :=
  ∀ network, shared.network = some network → network.owned = true

/-- The thread runs a statement that is behind the lock of the id. -/
def needsLock (thread : Thread) : Bool :=
  match thread.pc with
  | .createLookup | .createInspect _ | .probe _ | .validate | .run | .started _ => true
  | .ensure _ (.discovered _) => false
  | .ensure _ _ => true
  | .remove .lock _ => false
  | .remove _ _ => true
  | _ => false

/-- The thread is behind the lock of the backend. -/
def needsNetworkLock (thread : Thread) : Bool :=
  match thread.pc with
  | .ensure .lookupLocked _ | .ensure .create _ => true
  | _ => false

/-- The thread is about to give a network its container or to remove it. -/
def resolves (thread : Thread) : Bool :=
  match thread.pc with
  | .run => true
  | .ensure (.inspect _) .start | .ensure (.connect _) .start => true
  | .remove .lookupNetwork _ | .remove (.inspectNetwork _) _ | .remove (.disconnect _) _
  | .remove (.removeNetwork _) _ => true
  | _ => false

/-- The statement belongs to the call of the thread. -/
def RoleOk (thread : Thread) : Prop :=
  match thread.pc with
  | .createLookup | .createInspect _ | .probe _ | .validate | .run | .started _
  | .ensure _ (.reuse _) | .ensure _ .start | .remove _ (.recreate _) | .remove _ .failed =>
    ∃ request, thread.role = .create request
  | .discoverLookup | .discoverInspect _ | .discoverProbe | .ensure _ (.discovered _) =>
    ∃ pinned, thread.role = .discover pinned
  | .remove _ .finish =>
    (∃ pinned, thread.role = .discover pinned ∧ thread.stale = true) ∨
      ∃ expectedGeneration, thread.role = .delete expectedGeneration
  | _ => True

/-- What a repair of the network relies on, with the ids of the container and the network. -/
def EnsureFacts (container network inspected : Option Nat) (step : EnsureStep) : AfterEnsure → Prop
  | .reuse _ => (container = inspected ∧ container.isSome = true) ∧
      (step = .create → network = none) ∧
      ∀ id, step = .inspect id ∨ step = .connect id → network = some id
  | .start => container = none ∧ (step = .create → network = none) ∧
      ∀ id, step = .inspect id ∨ step = .connect id → network = some id
  | .discovered _ => step = .create → network = none

/-- What a removal relies on. -/
def RemoveFacts (container network : Option Nat) (thread : Thread) : RemoveStep → Prop
  | .lock => ∀ request, thread.role ≠ .create request
  | .lookup => ∀ request, thread.role = .create request → ∀ id, container = some id →
      thread.inspected = some id
  | .inspect id => container = some id ∧
      ((∀ expectedGeneration, thread.role ≠ .delete expectedGeneration) →
        thread.inspected = some id)
  | .stop id | .remove id => container = some id ∧
      ((∀ expectedGeneration, thread.role ≠ .delete expectedGeneration) →
        thread.inspected = some id) ∧ mismatches thread.role.expectedGeneration id = false
  | .lookupNetwork => container = none
  | .inspectNetwork id | .disconnect id | .removeNetwork id =>
    container = none ∧ network = some id

/-- What a thread relies on. -/
def Facts (container network : Option Nat) (thread : Thread) : Prop :=
  match thread.pc with
  | .createInspect id => container = some id
  | .probe _ => container = thread.inspected ∧ container.isSome = true
  | .validate | .run => container = none
  | .started id => container = some id ∧ thread.inspected = some id
  | .ensure step next => EnsureFacts container network thread.inspected step next
  | .remove step _ => RemoveFacts container network thread step
  | _ => True

/-! ## What a step of another thread leaves -/

/-- What a step of the thread at this index may do to the locks and the engine. -/
structure Moves (index : Nat) (shared shared' : Shared) : Prop where
  lock : shared'.lock = shared.lock ∨ shared.lock = none ∨ shared.lock = some index
  networkLock : shared'.networkLock = shared.networkLock ∨ shared.networkLock = none ∨
    shared.networkLock = some index
  container : shared'.containerId = shared.containerId ∨ shared.lock = some index
  network : shared'.networkId = shared.networkId ∨
    (shared.lock = some index ∧ shared'.networkId = none) ∨
      (shared.networkLock = some index ∧ shared.networkId = none)

theorem Moves.refl (index : Nat) (shared : Shared) : Moves index shared shared :=
  ⟨.inl rfl, .inl rfl, .inl rfl, .inl rfl⟩

variable {thread : Thread} {container network network' : Option Nat}

/-- Nothing that a thread relies on is lost when another thread creates a network. -/
theorem Facts.of_created (h : Facts container network thread) (hnone : network = none)
    (hfree : needsNetworkLock thread = false) : Facts container network' thread := by
  cases hpc : thread.pc with
  | ensure step next =>
    simp only [Facts, needsNetworkLock, hpc] at h hfree ⊢
    cases next <;> cases step <;> simp_all only [EnsureFacts] <;> grind
  | remove step next =>
    simp only [Facts, hpc] at h ⊢
    cases step <;> simp_all [RemoveFacts]
  | _ =>
    simp only [Facts, hpc] at h ⊢
    try exact h

theorem Facts.of_unlocked {container' : Option Nat} (h : Facts container network thread)
    (hfree : needsLock thread = false)
    (hnetwork : needsNetworkLock thread = true → network' = network ∨ network' = none) :
    Facts container' network' thread := by
  cases hpc : thread.pc with
  | ensure step next =>
    simp only [Facts, hpc] at h ⊢
    cases next <;> cases step <;> simp_all [EnsureFacts, needsLock, needsNetworkLock]
  | remove step next =>
    cases step <;> simp_all [Facts, RemoveFacts, needsLock]
  | _ => simp_all [Facts, needsLock]

variable {index : Nat} {shared : Shared} {other : Nat} {shared' : Shared}

/-- What a thread relies on survives a step of another thread. -/
theorem Facts.of_moves (h : Facts shared.containerId shared.networkId thread)
    (hmoves : Moves index shared shared')
    (hne : other ≠ index) (hlocked : needsLock thread = true → shared.lock = some other)
    (hnetwork : needsNetworkLock thread = true → shared.networkLock = some other) :
    Facts shared'.containerId shared'.networkId thread := by
  have hnotHere : shared.lock = some index → needsLock thread = false := by
    intro hlock
    by_contra hneeds
    simp_all
  have hnotCreating : shared.networkLock = some index → needsNetworkLock thread = false := by
    intro hlock
    by_contra hneeds
    simp_all
  by_cases hneeds : needsLock thread = true
  · have hcontainer : shared'.containerId = shared.containerId := by
      rcases hmoves.container with hsame | hlock
      · exact hsame
      · simp [hnotHere hlock] at hneeds
    rw [hcontainer]
    rcases hmoves.network with hsame | ⟨hlock, _⟩ | ⟨hlock, hnone⟩
    · rw [hsame]
      exact h
    · simp [hnotHere hlock] at hneeds
    · exact h.of_created hnone (hnotCreating hlock)
  · apply h.of_unlocked (by simpa using hneeds)
    intro hcreating
    rcases hmoves.network with hsame | ⟨_, hnone⟩ | ⟨hlock, _⟩
    · exact .inl hsame
    · exact .inr hnone
    · simp [hnotCreating hlock] at hcreating

/-! ## What a step leaves -/

/-- What holds of a thread between its steps. -/
structure Ready (index : Nat) (shared : Shared) (thread : Thread) : Prop where
  facts : Facts shared.containerId shared.networkId thread
  role : RoleOk thread
  locked : needsLock thread = true → shared.lock = some index
  networkLocked : needsNetworkLock thread = true → shared.networkLock = some index

/-- A network without a container that this thread is not about to resolve. -/
def Pending (shared : Shared) (thread : Thread) : Prop :=
  shared.networkId.isSome = true ∧ shared.containerId = none ∧ resolves thread = false

/-- What one step of a thread leaves to itself and to the others. -/
structure StepOk (index : Nat) (shared : Shared) (thread : Thread) (result : Shared × Thread) :
    Prop where
  role : result.2.role = thread.role
  ready : Ready index result.1 result.2
  moves : Moves index shared result.1
  owned : Owned result.1
  resolving : result.1.networkId.isSome = true → result.1.containerId = none →
    resolves result.2 = true ∨ Pending shared thread

section Steps

variable {config : Config} {index : Nat} {shared shared' : Shared} {thread thread' : Thread}
  {flag : Bool} (pc : Pc)

@[simp] theorem Thread.goto_pc : (thread.goto pc).pc = pc :=
  rfl

@[simp] theorem Thread.goto_role : (thread.goto pc).role = thread.role :=
  rfl

@[simp] theorem Thread.goto_inspected : (thread.goto pc).inspected = thread.inspected :=
  rfl

@[simp] theorem Thread.goto_stale : (thread.goto pc).stale = thread.stale :=
  rfl

/-- A step that leaves the locks and the engine as they are. -/
theorem StepOk.of_same (howned : Owned shared) (hrole : thread'.role = thread.role)
    (hready : Ready index shared thread')
    (hresolves : shared.networkId.isSome = true → shared.containerId = none →
      resolves thread = true → resolves thread' = true) :
    StepOk index shared thread (shared, thread') := by
  refine ⟨hrole, hready, Moves.refl index shared, howned, ?_⟩
  intro hnetwork hcontainer
  cases hresolved : resolves thread with
  | true => exact .inl (hresolves hnetwork hcontainer hresolved)
  | false => exact .inr ⟨hnetwork, hcontainer, hresolved⟩

theorem StepOk.leave_after (hrole : thread'.role = thread.role)
    (hmoves : Moves index shared shared')
    (hlock : shared'.lock = shared.lock) (howned : Owned shared')
    (hpending : shared'.networkId.isSome = true → shared'.containerId = none →
      Pending shared thread) :
    StepOk index shared thread (leave index shared' thread') := by
  refine ⟨hrole, ⟨trivial, trivial, nofun, nofun⟩, ?_, howned, ?_⟩
  · refine ⟨?_, hmoves.networkLock, hmoves.container, hmoves.network⟩
    simp only [leave]
    split_ifs with hheld
    · exact .inr (.inr (hlock.symm.trans hheld))
    · exact .inl hlock
  · intro hnetwork hcontainer
    exact .inr (hpending hnetwork hcontainer)

/-- The end of a call of a thread that has nothing to resolve. -/
theorem StepOk.leave (howned : Owned shared) (hrole : thread'.role = thread.role)
    (hresolves : shared.networkId.isSome = true → shared.containerId = none →
      resolves thread = false) :
    StepOk index shared thread (leave index shared thread') := by
  apply StepOk.leave_after hrole (Moves.refl index shared) rfl howned
  intro hnetwork hcontainer
  exact ⟨hnetwork, hcontainer, hresolves hnetwork hcontainer⟩

/-! ## The repair of a network -/

variable {id : Nat}

theorem networkId_isSome_of_eq (h : shared.networkId = some id) : shared.networkWith id ≠ none := by
  obtain ⟨network, _, _, hwith⟩ := Shared.networkWith_of_networkId h
  simp [hwith]

theorem owned_of_networkWith (howned : Owned shared) {network : NetworkObject}
    (h : shared.networkWith id = some network) : network.owned = true :=
  howned network (Shared.networkId_of_networkWith h).1

theorem owned_setConnected (howned : Owned shared) (connected : Bool) :
    Owned (shared.setConnected connected) := by
  intro network hnetwork
  obtain ⟨old, hold, rfl⟩ := Option.map_eq_some_iff.mp hnetwork
  exact howned old hold

variable {step : EnsureStep} {next : AfterEnsure}

/-- The thread behind a repaired network. -/
theorem afterEnsure_ready (h : Ready index shared thread) (hpc : thread.pc = .ensure step next)
    (hcontainer : shared'.containerId = shared.containerId) (hlock : shared'.lock = shared.lock) :
    Ready index shared' (afterEnsure config thread next) := by
  have hfacts := h.facts
  have hrole := h.role
  have hlocked := h.locked
  simp only [Facts, RoleOk, needsLock, hpc] at hfacts hrole hlocked
  rw [← hcontainer] at hfacts
  rw [← hlock] at hlocked
  cases next with
  | reuse existing =>
    exact ⟨hfacts.1, hrole, fun _ => hlocked rfl, nofun⟩
  | start => exact ⟨hfacts.1, hrole, fun _ => hlocked rfl, nofun⟩
  | discovered container =>
    simp only [afterEnsure]
    split_ifs
    · obtain ⟨pinned, hdiscover⟩ := hrole
      refine ⟨?_, .inl ⟨pinned, hdiscover, rfl⟩, nofun, nofun⟩
      intro request hcreate
      exact Role.noConfusion (hdiscover.symm.trans hcreate)
    · exact ⟨trivial, hrole, nofun, nofun⟩

theorem afterEnsure_role (next : AfterEnsure) :
    (afterEnsure config thread next).role = thread.role := by
  cases next with
  | discovered container =>
    simp only [afterEnsure]
    split_ifs <;> rfl
  | _ => rfl

theorem resolves_afterEnsure (hpc : thread.pc = .ensure step next)
    (hresolves : resolves thread = true) :
    resolves (afterEnsure config thread next) = true := by
  cases next with
  | start => rfl
  | _ => cases step <;> simp [resolves, hpc] at hresolves

section

variable (h : Ready index shared thread)
include h

variable {next : AfterEnsure}

theorem ensure_ready {step' : EnsureStep} (hpc : thread.pc = .ensure step next)
    (hcontainer : shared'.containerId = shared.containerId) (hlock : shared'.lock = shared.lock)
    (hcreate : step' = .create → shared'.networkId = none)
    (hnetwork : ∀ id, step' = .inspect id ∨ step' = .connect id → shared'.networkId = some id)
    (hfree : step' = .lookupLocked ∨ step' = .create → shared'.networkLock = some index) :
    Ready index shared' (thread.goto (.ensure step' next)) := by
  have hfacts := h.facts
  have hrole := h.role
  have hlocked := h.locked
  simp only [Facts, RoleOk, needsLock, hpc] at hfacts hrole hlocked
  rw [← hcontainer] at hfacts
  rw [← hlock] at hlocked
  refine ⟨?_, ?_, ?_, ?_⟩
  · cases next with
    | reuse existing => exact ⟨hfacts.1, hcreate, hnetwork⟩
    | start => exact ⟨hfacts.1, hcreate, hnetwork⟩
    | discovered container => exact hcreate
  · cases next <;> exact hrole
  · cases next with
    | discovered container => exact nofun
    | _ => exact fun _ => hlocked rfl
  · intro hneeds
    apply hfree
    cases step' <;> simp [needsNetworkLock] at hneeds ⊢

theorem networkId_of_ensure (hpc : thread.pc = .ensure step next)
    (hresolves : resolves thread = true) (hstep : step = .inspect id ∨ step = .connect id) :
    shared.networkId = some id := by
  have hfacts := h.facts
  simp only [Facts, hpc] at hfacts
  cases next with
  | reuse existing => exact hfacts.2.2 id hstep
  | start => exact hfacts.2.2 id hstep
  | discovered container => cases step <;> simp [resolves, hpc] at hresolves

theorem networkId_none_of_create (hpc : thread.pc = .ensure .create next) : shared.networkId = none := by
  have hfacts := h.facts
  simp only [Facts, hpc] at hfacts
  cases next with
  | reuse existing => exact hfacts.2.1 rfl
  | start => exact hfacts.2.1 rfl
  | discovered container => exact hfacts rfl

end

section

variable (howned : Owned shared)
include howned

section

variable (h : Ready index shared thread)
include h

variable {next : AfterEnsure}

theorem ensureStep_lookup_ok (hpc : thread.pc = .ensure .lookup next) :
    StepOk index shared thread (ensureStep config index shared thread flag next .lookup) := by
  have hresolves : resolves thread = false := by
    cases next <;> simp [resolves, hpc]
  simp only [ensureStep]
  split
  · rename_i network hnetwork
    refine StepOk.of_same howned rfl ?_ ?_
    · refine ensure_ready h hpc rfl rfl nofun ?_ ?_
      · rintro id (hid | hid) <;> cases hid
        simp [Shared.networkId, hnetwork]
      · exact nofun
    · simp [hresolves]
  · rename_i hnetwork
    split_ifs with hfree
    · refine ⟨rfl, ?_, ⟨.inl rfl, .inr (.inl hfree), .inl rfl, .inl rfl⟩, howned, ?_⟩
      · refine ensure_ready h hpc rfl rfl nofun ?_ ?_
        · exact nofun
        · exact fun _ => rfl
      · simp [Shared.networkId, hnetwork]
    · exact StepOk.of_same howned rfl h (by simp)

theorem ensureStep_lookupLocked_ok (hpc : thread.pc = .ensure .lookupLocked next) :
    StepOk index shared thread (ensureStep config index shared thread flag next .lookupLocked) := by
  have hresolves : resolves thread = false := by
    cases next <;> simp [resolves, hpc]
  have hheld : shared.networkLock = some index := by
    apply h.networkLocked
    simp [needsNetworkLock, hpc]
  simp only [ensureStep]
  split
  · rename_i network hnetwork
    refine ⟨rfl, ?_, ⟨.inl rfl, .inr (.inr hheld), .inl rfl, .inl rfl⟩, howned, ?_⟩
    · refine ensure_ready h hpc rfl rfl nofun ?_ ?_
      · rintro id (hid | hid) <;> cases hid
        simp [Shared.networkId, hnetwork]
      · exact nofun
    · intro hsome hnone
      exact .inr ⟨hsome, hnone, hresolves⟩
  · rename_i hnetwork
    refine StepOk.of_same howned rfl ?_ ?_
    · refine ensure_ready h hpc rfl rfl ?_ ?_ ?_
      · simp [Shared.networkId, hnetwork]
      · exact nofun
      · exact fun _ => hheld
    · simp [hresolves]

theorem ensureStep_create_ok (hpc : thread.pc = .ensure .create next)
    (hmeets : ∀ pinned, thread.role = .discover pinned → shared.containerId ≠ none) :
    StepOk index shared thread (ensureStep config index shared thread flag next .create) := by
  have hnone := networkId_none_of_create h hpc
  have hheld : shared.networkLock = some index := by
    apply h.networkLocked
    simp [needsNetworkLock, hpc]
  simp only [ensureStep]
  split_ifs
  · refine ⟨rfl, ?_, ⟨.inl rfl, .inr (.inr hheld), .inl rfl, .inr (.inr ⟨hheld, hnone⟩)⟩, ?_, ?_⟩
    · refine ensure_ready h hpc rfl rfl nofun ?_ ?_
      · rintro id (hid | hid) <;> cases hid
        rfl
      · exact nofun
    · rintro network hnetwork
      cases hnetwork
      rfl
    · intro _ hgone
      have hcontainer : shared.containerId = none := hgone
      have hfacts := h.facts
      have hrole := h.role
      simp only [Facts, RoleOk, hpc] at hfacts hrole
      cases next with
      | reuse existing =>
        have hsome : shared.containerId.isSome = true := hfacts.1.2
        simp [hcontainer] at hsome
      | start => exact .inl rfl
      | discovered container =>
        obtain ⟨pinned, hdiscover⟩ := hrole
        exact absurd hcontainer (hmeets pinned hdiscover)
  · refine StepOk.leave_after rfl ?_ rfl howned ?_
    · exact ⟨.inl rfl, .inr (.inr hheld), .inl rfl, .inl rfl⟩
    · intro hnetwork
      have hnetwork : shared.networkId.isSome = true := hnetwork
      simp [hnone] at hnetwork

theorem ensureStep_inspect_ok (hpc : thread.pc = .ensure (.inspect id) next) :
    StepOk index shared thread (ensureStep config index shared thread flag next (.inspect id)) := by
  simp only [ensureStep]
  split
  · rename_i hgone
    refine StepOk.leave howned rfl ?_
    intro _ _
    by_contra hresolves
    have hresolves : resolves thread = true := by simpa using hresolves
    exact networkId_isSome_of_eq (networkId_of_ensure h hpc hresolves (.inl rfl)) hgone
  · rename_i network hnetwork
    simp only [owned_of_networkWith howned hnetwork, if_true]
    split_ifs
    · refine StepOk.of_same howned (afterEnsure_role next) (afterEnsure_ready h hpc rfl rfl) ?_
      intro _ _ hresolves
      exact resolves_afterEnsure hpc hresolves
    · refine StepOk.of_same howned rfl ?_ ?_
      · refine ensure_ready h hpc rfl rfl nofun ?_ ?_
        · rintro other (hother | hother) <;> cases hother
          exact (Shared.networkId_of_networkWith hnetwork).2
        · exact nofun
      · intro _ _ hresolves
        cases next <;> simp [resolves, hpc] at hresolves ⊢

theorem ensureStep_connect_ok (hpc : thread.pc = .ensure (.connect id) next) :
    StepOk index shared thread (ensureStep config index shared thread flag next (.connect id)) := by
  simp only [ensureStep]
  split
  · rename_i hgone
    refine StepOk.leave howned rfl ?_
    intro _ _
    by_contra hresolves
    have hresolves : resolves thread = true := by simpa using hresolves
    exact networkId_isSome_of_eq (networkId_of_ensure h hpc hresolves (.inr rfl)) hgone
  · have hkept := Shared.networkId_setConnected shared true
    refine ⟨afterEnsure_role next, afterEnsure_ready h hpc rfl rfl,
      ⟨.inl rfl, .inl rfl, .inl rfl, .inl hkept⟩, owned_setConnected howned true, ?_⟩
    intro hnetwork hcontainer
    rw [hkept] at hnetwork
    cases hresolves : resolves thread with
    | true => exact .inl (resolves_afterEnsure hpc hresolves)
    | false => exact .inr ⟨hnetwork, hcontainer, hresolves⟩

theorem ensureStep_ok (hpc : thread.pc = .ensure step next)
    (hmeets : ∀ pinned, thread.role = .discover pinned → step = .create →
      shared.containerId ≠ none) :
    StepOk index shared thread (ensureStep config index shared thread flag next step) := by
  cases step with
  | lookup => exact ensureStep_lookup_ok howned h hpc
  | lookupLocked => exact ensureStep_lookupLocked_ok howned h hpc
  | create =>
    exact ensureStep_create_ok howned h hpc fun pinned hdiscover => hmeets pinned hdiscover rfl
  | inspect id => exact ensureStep_inspect_ok howned h hpc
  | connect id => exact ensureStep_connect_ok howned h hpc

end

end

/-! ## The removal of a container and its network -/

variable {next : AfterRemove}

section

variable (h : Ready index shared thread)
include h

variable {step : RemoveStep}

section

variable (hpc : thread.pc = .remove step next)
include hpc

/-- A thread that goes on with its removal. -/
theorem remove_ready {step' : RemoveStep} (hlock : shared'.lock = some index)
    (hfacts : RemoveFacts shared'.containerId shared'.networkId thread step') :
    Ready index shared' (thread.goto (.remove step' next)) := by
  have hrole := h.role
  simp only [RoleOk, hpc] at hrole
  refine ⟨?_, ?_, fun _ => hlock, nofun⟩
  · cases step' <;> exact hfacts
  · cases next <;> exact hrole

theorem lock_of_remove (hstep : step ≠ .lock) : shared.lock = some index := by
  apply h.locked
  cases step <;> simp_all [needsLock]

/-- The end of a removal that leaves neither a container nor a network. -/
theorem afterRemove_ok (hheld : shared.lock = some index)
    (hmoves : Moves index shared shared') (hlock : shared'.lock = shared.lock)
    (hcontainer : shared'.containerId = none) (hnetwork : shared'.networkId = none) :
    StepOk index shared thread (afterRemove index shared' thread next) := by
  have hrole := h.role
  simp only [RoleOk, hpc] at hrole
  have howned : Owned shared' := by
    intro network hsome
    simp [Shared.networkId, hsome] at hnetwork
  have hpending : shared'.networkId.isSome = true → shared'.containerId = none →
      Pending shared thread := by
    simp [hnetwork]
  cases next with
  | recreate swallow =>
    refine ⟨rfl, ⟨hcontainer, hrole, fun _ => hlock.trans hheld, nofun⟩, hmoves, howned, ?_⟩
    exact fun hsome hnone => .inr (hpending hsome hnone)
  | failed => exact StepOk.leave_after rfl hmoves hlock howned hpending
  | finish => exact StepOk.leave_after rfl hmoves hlock howned hpending

/-- Only a deletion has a generation to compare with. -/
theorem next_of_mismatches
    (hmismatches : mismatches thread.role.expectedGeneration id = true) : next = .finish := by
  have hrole := h.role
  simp only [RoleOk, hpc] at hrole
  cases next with
  | finish => rfl
  | _ =>
    obtain ⟨request, hcreate⟩ := hrole
    simp [hcreate, mismatches, Role.expectedGeneration] at hmismatches

end

end

section

variable (howned : Owned shared)
include howned

section

variable (h : Ready index shared thread)
include h

theorem removeStep_lock_ok (hpc : thread.pc = .remove .lock next) :
    StepOk index shared thread (removeStep index shared thread next .lock) := by
  have hfacts := h.facts
  simp only [Facts, RemoveFacts, hpc] at hfacts
  have hresolves : resolves thread = false := by
    simp [resolves, hpc]
  simp only [removeStep]
  split_ifs with hfree
  · refine ⟨rfl, ?_, ⟨.inr (.inl hfree), .inl rfl, .inl rfl, .inl rfl⟩, howned, ?_⟩
    · refine remove_ready h hpc rfl ?_
      intro request hcreate
      exact absurd hcreate (hfacts request)
    · exact fun hsome hnone => .inr ⟨hsome, hnone, hresolves⟩
  · exact StepOk.of_same howned rfl h (by simp)

theorem removeStep_lookup_ok (hpc : thread.pc = .remove .lookup next)
    (hmeets : ∀ pinned, thread.role = .discover pinned → ∀ id, shared.containerId = some id →
      thread.inspected = some id) :
    StepOk index shared thread (removeStep index shared thread next .lookup) := by
  have hheld := lock_of_remove h hpc (by simp)
  have hfacts := h.facts
  simp only [Facts, hpc] at hfacts
  have hresolves : resolves thread = false := by
    simp [resolves, hpc]
  simp only [removeStep]
  split
  · rename_i hgone
    refine StepOk.of_same howned rfl ?_ (by simp [hresolves])
    apply remove_ready h hpc hheld
    simp [RemoveFacts, Shared.containerId, hgone]
  · rename_i container hcontainer
    have hid : shared.containerId = some container.id := by
      simp [Shared.containerId, hcontainer]
    refine StepOk.of_same howned rfl ?_ (by simp [hresolves])
    apply remove_ready h hpc hheld
    refine ⟨hid, fun hnotDelete => ?_⟩
    cases hrole : thread.role with
    | create request => exact hfacts request hrole _ hid
    | discover pinned => exact hmeets pinned hrole _ hid
    | delete expectedGeneration => exact absurd hrole (hnotDelete expectedGeneration)

theorem removeStep_inspect_ok (hpc : thread.pc = .remove (.inspect id) next) :
    StepOk index shared thread (removeStep index shared thread next (.inspect id)) := by
  have hheld := lock_of_remove h hpc (by simp)
  have hfacts := h.facts
  simp only [Facts, hpc] at hfacts
  obtain ⟨hid, hinspected⟩ := hfacts
  obtain ⟨container, _, _, hwith⟩ := Shared.containerWith_of_containerId hid
  have hresolves : resolves thread = false := by
    simp [resolves, hpc]
  simp only [removeStep, hwith]
  split_ifs with hmismatches hrunning
  · obtain rfl := next_of_mismatches h hpc hmismatches
    exact StepOk.leave howned rfl fun _ _ => hresolves
  · refine StepOk.of_same howned rfl ?_ (by simp [hresolves])
    apply remove_ready h hpc hheld
    exact ⟨hid, hinspected, by simpa using hmismatches⟩
  · refine StepOk.of_same howned rfl ?_ (by simp [hresolves])
    apply remove_ready h hpc hheld
    exact ⟨hid, hinspected, by simpa using hmismatches⟩

theorem removeStep_stop_ok (hpc : thread.pc = .remove (.stop id) next) :
    StepOk index shared thread (removeStep index shared thread next (.stop id)) := by
  have hheld := lock_of_remove h hpc (by simp)
  have hfacts := h.facts
  simp only [Facts, hpc] at hfacts
  obtain ⟨hid, hinspected, hmatches⟩ := hfacts
  obtain ⟨container, hcontainer, hsame, hwith⟩ := Shared.containerWith_of_containerId hid
  simp only [removeStep, hwith]
  refine ⟨rfl, ?_, ⟨.inl rfl, .inl rfl, .inr hheld, .inl rfl⟩, howned, ?_⟩
  · refine remove_ready h hpc hheld ⟨?_, hinspected, hmatches⟩
    simp [Shared.containerId, hsame]
  · simp [Shared.containerId]

theorem removeStep_remove_ok (hpc : thread.pc = .remove (.remove id) next) :
    StepOk index shared thread (removeStep index shared thread next (.remove id)) := by
  have hheld := lock_of_remove h hpc (by simp)
  have hfacts := h.facts
  simp only [Facts, hpc] at hfacts
  obtain ⟨container, _, _, hwith⟩ := Shared.containerWith_of_containerId hfacts.1
  simp only [removeStep, hwith]
  refine ⟨rfl, ?_, ⟨.inl rfl, .inl rfl, .inr hheld, .inl rfl⟩, howned, ?_⟩
  · exact remove_ready h hpc hheld rfl
  · exact fun _ _ => .inl rfl

theorem removeStep_lookupNetwork_ok (hpc : thread.pc = .remove .lookupNetwork next) :
    StepOk index shared thread (removeStep index shared thread next .lookupNetwork) := by
  have hheld := lock_of_remove h hpc (by simp)
  have hfacts := h.facts
  simp only [Facts, RemoveFacts, hpc] at hfacts
  simp only [removeStep]
  split
  · rename_i hgone
    apply afterRemove_ok h hpc hheld (Moves.refl index shared) rfl hfacts
    simp [Shared.networkId, hgone]
  · rename_i network hnetwork
    refine StepOk.of_same howned rfl ?_ fun _ _ _ => rfl
    apply remove_ready h hpc hheld
    exact ⟨hfacts, by simp [Shared.networkId, hnetwork]⟩

theorem removeStep_inspectNetwork_ok (hpc : thread.pc = .remove (.inspectNetwork id) next) :
    StepOk index shared thread (removeStep index shared thread next (.inspectNetwork id)) := by
  have hheld := lock_of_remove h hpc (by simp)
  have hfacts := h.facts
  simp only [Facts, RemoveFacts, hpc] at hfacts
  obtain ⟨network, hnetwork, _, hwith⟩ := Shared.networkWith_of_networkId hfacts.2
  simp only [removeStep, hwith, howned network hnetwork, if_true]
  split_ifs
  · refine StepOk.of_same howned rfl ?_ fun _ _ _ => rfl
    exact remove_ready h hpc hheld hfacts
  · refine StepOk.of_same howned rfl ?_ fun _ _ _ => rfl
    exact remove_ready h hpc hheld hfacts

theorem removeStep_disconnect_ok (hpc : thread.pc = .remove (.disconnect id) next) :
    StepOk index shared thread (removeStep index shared thread next (.disconnect id)) := by
  have hheld := lock_of_remove h hpc (by simp)
  have hfacts := h.facts
  simp only [Facts, RemoveFacts, hpc] at hfacts
  obtain ⟨network, _, _, hwith⟩ := Shared.networkWith_of_networkId hfacts.2
  have hkept := Shared.networkId_setConnected shared false
  simp only [removeStep, hwith]
  refine ⟨rfl, ?_, ⟨.inl rfl, .inl rfl, .inl rfl, .inl hkept⟩, owned_setConnected howned false, ?_⟩
  · exact remove_ready h hpc hheld ⟨hfacts.1, hkept.trans hfacts.2⟩
  · exact fun _ _ => .inl rfl

end

end

theorem removeStep_removeNetwork_ok (h : Ready index shared thread)
    (hpc : thread.pc = .remove (.removeNetwork id) next) :
    StepOk index shared thread (removeStep index shared thread next (.removeNetwork id)) := by
  have hheld := lock_of_remove h hpc (by simp)
  have hfacts := h.facts
  simp only [Facts, RemoveFacts, hpc] at hfacts
  obtain ⟨network, _, _, hwith⟩ := Shared.networkWith_of_networkId hfacts.2
  simp only [removeStep, hwith]
  refine afterRemove_ok h hpc hheld ?_ rfl hfacts.1 rfl
  exact ⟨.inl rfl, .inl rfl, .inl rfl, .inr (.inl ⟨hheld, rfl⟩)⟩

section

variable (howned : Owned shared)
include howned

section

variable (h : Ready index shared thread)
include h

theorem removeStep_ok {step : RemoveStep} (hpc : thread.pc = .remove step next)
    (hmeets : step = .lookup → ∀ pinned, thread.role = .discover pinned →
      ∀ id, shared.containerId = some id → thread.inspected = some id) :
    StepOk index shared thread (removeStep index shared thread next step) := by
  cases step with
  | lock => exact removeStep_lock_ok howned h hpc
  | lookup => exact removeStep_lookup_ok howned h hpc (hmeets rfl)
  | inspect id => exact removeStep_inspect_ok howned h hpc
  | stop id => exact removeStep_stop_ok howned h hpc
  | remove id => exact removeStep_remove_ok howned h hpc
  | lookupNetwork => exact removeStep_lookupNetwork_ok howned h hpc
  | inspectNetwork id => exact removeStep_inspectNetwork_ok howned h hpc
  | disconnect id => exact removeStep_disconnect_ok howned h hpc
  | removeNetwork id => exact removeStep_removeNetwork_ok h hpc

/-! ## The other statements -/

theorem StepOk.stay :
    StepOk index shared thread (shared, thread) :=
  StepOk.of_same howned rfl h fun _ _ hresolves => hresolves

theorem startStep_ok (hpc : thread.pc = .starting) :
    StepOk index shared thread (startStep index shared thread) := by
  have hresolves : resolves thread = false := by
    simp [resolves, hpc]
  unfold startStep
  cases hrole : thread.role with
  | create request =>
    simp only
    split
    · exact StepOk.leave howned rfl fun _ _ => hresolves
    · split_ifs with hfree
      · refine ⟨rfl, ⟨trivial, ⟨request, hrole⟩, fun _ => rfl, nofun⟩, ?_, howned, ?_⟩
        · exact ⟨.inr (.inl hfree), .inl rfl, .inl rfl, .inl rfl⟩
        · exact fun hsome hnone => .inr ⟨hsome, hnone, hresolves⟩
      · exact StepOk.stay howned h
  | discover pinned =>
    refine StepOk.of_same howned rfl ?_ (by simp [hresolves])
    exact ⟨trivial, ⟨pinned, hrole⟩, nofun, nofun⟩
  | delete expectedGeneration =>
    refine StepOk.of_same howned rfl ?_ (by simp [hresolves])
    refine ⟨?_, .inr ⟨expectedGeneration, hrole⟩, nofun, nofun⟩
    intro request hcreate
    exact Role.noConfusion (hrole.symm.trans hcreate)

end

variable {request : CreateRequest} {identity : Identity}

theorem createInspect_ok {container : Container} (hrole : thread.role = .create request)
    (hheld : shared.lock = some index) (hid : shared.containerId = some container.id)
    (hresolves : resolves thread = false) :
    StepOk index shared thread (createInspect config index shared thread identity container) := by
  simp only [createInspect]
  split
  · exact StepOk.leave howned rfl fun _ _ => hresolves
  · split_ifs
    · refine StepOk.of_same howned rfl ?_ (by simp [hresolves])
      refine ⟨?_, ⟨request, hrole⟩, fun _ => hheld, nofun⟩
      intro _ _ id hcontainer
      exact hid.symm.trans hcontainer
    · refine StepOk.of_same howned rfl ?_ (by simp [hresolves])
      exact ⟨⟨⟨hid, by simp [hid]⟩, nofun, nofun⟩, ⟨request, hrole⟩, fun _ => hheld, nofun⟩

theorem runStep_ok (hrole : thread.role = .create request) (hheld : shared.lock = some index)
    (hnone : shared.containerId = none) :
    StepOk index shared thread (runStep config shared thread identity request) := by
  have hcontainer : shared.container = none := by
    simpa [Shared.containerId] using hnone
  simp only [runStep, hcontainer]
  refine ⟨rfl, ⟨⟨rfl, rfl⟩, ⟨request, hrole⟩, fun _ => hheld, nofun⟩, ?_, howned, ?_⟩
  · exact ⟨.inl rfl, .inl rfl, .inr hheld, .inl rfl⟩
  · simp [Shared.containerId]

theorem createStep_ok (h : Ready index shared thread) (hrole : thread.role = .create request) :
    StepOk index shared thread (createStep config index shared thread flag request identity) := by
  have hfacts := h.facts
  have hlocked := h.locked
  unfold createStep
  split <;> rename_i hpc <;> simp only [Facts, needsLock, hpc] at hfacts hlocked
  · split
    · rename_i hgone
      refine StepOk.of_same howned rfl ?_ (by simp [resolves, hpc])
      exact ⟨by simp [Facts, Shared.containerId, hgone], ⟨request, hrole⟩, fun _ => hlocked trivial,
        nofun⟩
    · rename_i container hcontainer
      refine StepOk.of_same howned rfl ?_ (by simp [resolves, hpc])
      exact ⟨by simp [Facts, Shared.containerId, hcontainer], ⟨request, hrole⟩,
        fun _ => hlocked trivial, nofun⟩
  · split
    · exact StepOk.leave howned rfl (by simp [resolves, hpc])
    · rename_i container hcontainer
      have hid := (Shared.containerId_of_containerWith hcontainer).2
      apply createInspect_ok howned hrole (hlocked trivial) (hid.2.trans (congrArg some hid.1.symm))
      simp [resolves, hpc]
  · split_ifs
    · exact StepOk.leave howned rfl (by simp [resolves, hpc])
    · refine StepOk.of_same howned rfl ?_ (by simp [resolves, hpc])
      refine ⟨?_, ⟨request, hrole⟩, fun _ => hlocked trivial, nofun⟩
      intro _ _ id hcontainer
      exact hfacts.1.symm.trans hcontainer
  · split_ifs
    · refine StepOk.of_same howned rfl ?_ (by simp [resolves, hpc])
      exact ⟨⟨hfacts, nofun, nofun⟩, ⟨request, hrole⟩, fun _ => hlocked trivial, nofun⟩
    · exact StepOk.leave howned rfl (by simp [resolves, hpc])
  · exact runStep_ok howned hrole (hlocked trivial) hfacts
  · split_ifs
    · exact StepOk.leave howned rfl (by simp [resolves, hpc])
    · refine StepOk.of_same howned rfl ?_ (by simp [resolves, hpc])
      refine ⟨?_, ⟨request, hrole⟩, fun _ => hlocked trivial, nofun⟩
      intro _ _ id hcontainer
      exact hfacts.2.trans (hfacts.1.symm.trans hcontainer)
  · exact StepOk.stay howned h

theorem discoverStep_ok {pinned : Bool} (h : Ready index shared thread)
    (hrole : thread.role = .discover pinned) :
    StepOk index shared thread (discoverStep config index shared thread) := by
  unfold discoverStep
  split <;> rename_i hpc
  · split
    · exact StepOk.leave howned rfl (by simp [resolves, hpc])
    · refine StepOk.of_same howned rfl ?_ (by simp [resolves, hpc])
      exact ⟨trivial, ⟨pinned, hrole⟩, nofun, nofun⟩
  · split
    · exact StepOk.leave howned rfl (by simp [resolves, hpc])
    · split
      · exact StepOk.leave howned rfl (by simp [resolves, hpc])
      · refine StepOk.of_same howned rfl ?_ (by simp [resolves, hpc])
        refine ⟨?_, .inl ⟨pinned, hrole, rfl⟩, nofun, nofun⟩
        intro request hcreate
        exact Role.noConfusion (hrole.symm.trans hcreate)
      all_goals
        refine StepOk.of_same howned rfl ?_ (by simp [resolves, hpc])
        exact ⟨nofun, ⟨pinned, hrole⟩, nofun, nofun⟩
  · exact StepOk.leave howned rfl (by simp [resolves, hpc])
  · exact StepOk.stay howned h

end

/-- The condition of `meets` on the thread that takes the step. -/
def Meets (shared : Shared) (thread : Thread) : Prop :=
  ∀ pinned, thread.role = .discover pinned → (∀ next, thread.pc = .remove .lookup next →
      ∀ id, shared.containerId = some id → thread.inspected = some id) ∧
    ∀ next, thread.pc = .ensure .create next → shared.containerId ≠ none

/-- One engine call. -/
theorem threadStep_ok (howned : Owned shared) (h : Ready index shared thread)
    (hmeets : Meets shared thread) :
    StepOk index shared thread (threadStep config index shared thread flag) := by
  unfold threadStep
  split
  · rename_i hpc
    exact startStep_ok howned h hpc
  · rename_i step next hpc
    apply ensureStep_ok howned h hpc
    rintro pinned hrole rfl
    exact (hmeets pinned hrole).2 next hpc
  · rename_i step next hpc
    apply removeStep_ok howned h hpc
    rintro rfl pinned hrole
    exact (hmeets pinned hrole).1 next hpc
  · exact StepOk.stay howned h
  · exact StepOk.stay howned h
  · exact StepOk.stay howned h
  · exact StepOk.stay howned h
  · split
    · rename_i request hrole
      split
      · exact createStep_ok howned h hrole
      · exact StepOk.stay howned h
    · rename_i pinned hrole
      exact discoverStep_ok howned h hrole
    · exact StepOk.stay howned h

end Steps

/-! ## The system -/

/-- What holds in every reached state. -/
structure Inv (σ : State) : Prop where
  ready : ∀ index thread, σ.threads[index]? = some thread → Ready index σ.shared thread
  owned : Owned σ.shared
  resolving : σ.shared.networkId.isSome = true → σ.shared.containerId = none →
    ∃ thread ∈ σ.threads, resolves thread = true

theorem inv_initial (leftover : Option Container) : Inv (State.initial leftover) := by
  refine ⟨?_, ?_, ?_⟩
  · intro index thread hthread
    simp [State.initial] at hthread
  · intro network hnetwork
    obtain ⟨container, _, rfl⟩ := Option.map_eq_some_iff.mp hnetwork
    rfl
  · intro hnetwork hcontainer
    cases leftover with
    | none => simp [State.initial, Shared.networkId] at hnetwork
    | some container => simp [State.initial, Shared.containerId] at hcontainer

/-- What another thread relies on survives a step. -/
theorem Ready.of_moves (h : Ready other shared thread) (hmoves : Moves index shared shared')
    (hne : other ≠ index) :
    Ready other shared' thread := by
  refine ⟨h.facts.of_moves hmoves hne h.locked h.networkLocked, h.role, ?_, ?_⟩
  · intro hneeds
    have hheld := h.locked hneeds
    rcases hmoves.lock with hsame | hnone | hother
    · rw [hsame]
      exact hheld
    · simp [hnone] at hheld
    · rw [hother, Option.some.injEq] at hheld
      exact absurd hheld.symm hne
  · intro hneeds
    have hheld := h.networkLocked hneeds
    rcases hmoves.networkLock with hsame | hnone | hother
    · rw [hsame]
      exact hheld
    · simp [hnone] at hheld
    · rw [hother, Option.some.injEq] at hheld
      exact absurd hheld.symm hne

variable {σ : State} {pins : SandboxOperationPins}

theorem Inv.set {result : Shared × Thread} (h : Inv σ) (hthread : σ.threads[index]? = some thread)
    (hok : StepOk index σ.shared thread result) :
    Inv ⟨pins, σ.threads.set index result.2, result.1⟩ := by
  have hlt : index < σ.threads.length := (List.getElem?_eq_some_iff.mp hthread).1
  refine ⟨?_, hok.owned, ?_⟩
  · intro other thread' hother
    simp only [List.getElem?_set] at hother
    split_ifs at hother with hsame
    · obtain rfl := hsame
      obtain rfl := Option.some.inj hother
      exact hok.ready
    · exact (h.ready other thread' hother).of_moves hok.moves (Ne.symm hsame)
  · intro hnetwork hcontainer
    rcases hok.resolving hnetwork hcontainer with hresolves | ⟨hsome, hnone, hfree⟩
    · exact ⟨result.2, List.mem_set hlt result.2, hresolves⟩
    · obtain ⟨thread', hmem, hresolves⟩ := h.resolving hsome hnone
      refine ⟨thread', ?_, hresolves⟩
      obtain ⟨other, hother⟩ := List.mem_iff_getElem?.mp hmem
      apply List.mem_iff_getElem?.mpr
      refine ⟨other, ?_⟩
      rw [List.getElem?_set_ne]
      · exact hother
      · rintro rfl
        rw [hthread, Option.some.injEq] at hother
        rw [hother, hresolves] at hfree
        cases hfree

/-- A thread that only enters, leaves or gives up its pin. -/
theorem Inv.set_same {thread' : Thread} (h : Inv σ) (hthread : σ.threads[index]? = some thread)
    (hready : Ready index σ.shared thread') (hresolves : resolves thread' = resolves thread) :
    Inv ⟨pins, σ.threads.set index thread', σ.shared⟩ := by
  have hlt : index < σ.threads.length := (List.getElem?_eq_some_iff.mp hthread).1
  refine ⟨?_, h.owned, ?_⟩
  · intro other old hother
    simp only [List.getElem?_set] at hother
    split_ifs at hother with hsame
    · obtain rfl := hsame
      obtain rfl := Option.some.inj hother
      exact hready
    · exact h.ready other old hother
  · intro hnetwork hcontainer
    obtain ⟨old, hmem, hold⟩ := h.resolving hnetwork hcontainer
    obtain ⟨other, hother⟩ := List.mem_iff_getElem?.mp hmem
    by_cases hsame : index = other
    · subst hsame
      rw [hthread, Option.some.injEq] at hother
      subst hother
      exact ⟨thread', List.mem_set hlt thread', hresolves.trans hold⟩
    · refine ⟨old, List.mem_iff_getElem?.mpr ⟨other, ?_⟩, hold⟩
      rw [List.getElem?_set_ne hsame]
      exact hother

/-- A thread that waits, or is over. -/
theorem ready_of_idle {pc : Pc} (hpc : pc = .starting ∨ pc = .draining ∨ pc = .done) :
    Ready index shared (thread.goto pc) := by
  rcases hpc with rfl | rfl | rfl <;> exact ⟨trivial, trivial, nofun, nofun⟩

/-- A discovery goes on without its pin. -/
theorem Ready.abandoned (h : Ready index shared thread) (hrole : thread.role = .discover true) :
    Ready index shared { thread with role := .discover false } := by
  have hfacts := h.facts
  have hok := h.role
  refine ⟨?_, ?_, h.locked, h.networkLocked⟩
  · cases hpc : thread.pc with
    | remove step next =>
      simp only [Facts, hpc] at hfacts ⊢
      cases step <;> simp_all [RemoveFacts, mismatches, Role.expectedGeneration]
    | _ =>
      simp only [Facts, hpc] at hfacts ⊢
      try exact hfacts
  · cases hpc : thread.pc with
    | ensure step next => cases next <;> simp_all [RoleOk]
    | remove step next => cases next <;> simp_all [RoleOk]
    | _ => simp_all [RoleOk]

section System

variable {config : Config} {σ : State}

theorem inv_call (role : Role) (h : Inv σ) : Inv (step config σ (.call role)) := by
  refine ⟨?_, h.owned, ?_⟩
  · intro index thread hthread
    simp only [step, List.getElem?_append] at hthread
    split_ifs at hthread with hlt
    · exact h.ready index thread hthread
    · have hnew := List.mem_of_getElem? hthread
      simp only [List.mem_singleton] at hnew
      subst hnew
      exact ⟨trivial, trivial, (by intro h; cases h), (by intro h; cases h)⟩
  · intro hnetwork hcontainer
    obtain ⟨thread, hmem, hresolves⟩ := h.resolving hnetwork hcontainer
    exact ⟨thread, List.mem_append_left _ hmem, hresolves⟩

variable {index : Nat} {thread : Thread}

theorem inv_enterPinned (h : Inv σ)
    (hthread : σ.threads[index]? = some thread) (hresolves : resolves thread = false) :
    Inv (σ.enterPinned config index thread) := by
  unfold State.enterPinned
  split
  · exact h
  · exact h.set_same hthread (ready_of_idle (.inl rfl)) hresolves.symm

theorem inv_enter (index : Nat) (h : Inv σ) : Inv (step config σ (.enter index)) := by
  simp only [step, State.enter]
  split
  · exact h
  · rename_i thread hthread
    split
    · rename_i hpc _
      exact inv_enterPinned h hthread (by simp [resolves, hpc])
    · rename_i hpc _
      exact inv_enterPinned h hthread (by simp [resolves, hpc])
    · rename_i hpc _
      apply h.set_same hthread (ready_of_idle (.inl rfl))
      simp [resolves, hpc]
    · rename_i hpc _
      apply h.set_same hthread (ready_of_idle (.inr (.inl rfl)))
      simp [resolves, hpc]
    · rename_i hpc
      split_ifs
      · apply h.set_same hthread (ready_of_idle (.inl rfl))
        simp [resolves, hpc]
      · exact h
    · exact h

theorem meets_thread {flag : Bool} (hthread : σ.threads[index]? = some thread)
    (hmeets : meets σ (.advance index flag) = true) :
    Meets σ.shared thread := by
  intro pinned hrole
  simp only [meets, hthread, Option.all_some, hrole] at hmeets
  refine ⟨?_, ?_⟩
  · intro next hpc id hcontainer
    obtain ⟨container, hsome, rfl⟩ := Option.map_eq_some_iff.mp hcontainer
    simpa [hpc, hsome] using hmeets
  · intro next hpc hnone
    have hgone : σ.shared.container = none := by
      simpa [Shared.containerId] using hnone
    simp [hpc, hgone] at hmeets

theorem inv_advance (index : Nat) (flag : Bool) (h : Inv σ)
    (hmeets : meets σ (.advance index flag) = true) :
    Inv (step config σ (.advance index flag)) := by
  simp only [step, State.advance]
  split
  · exact h
  · rename_i thread hthread
    apply h.set hthread
    exact threadStep_ok h.owned (h.ready index thread hthread) (meets_thread hthread hmeets)

theorem inv_exit (index : Nat) (h : Inv σ) : Inv (step config σ (.exit index)) := by
  simp only [step, State.exit]
  split
  · exact h
  · rename_i thread hthread
    split
    · rename_i hpc
      apply h.set_same hthread (ready_of_idle (.inr (.inr rfl)))
      simp [resolves, hpc]
    · exact h

theorem inv_abandon (index : Nat) (h : Inv σ) : Inv (step config σ (.abandon index)) := by
  simp only [step, State.abandon]
  split
  · exact h
  · rename_i thread hthread
    split
    · rename_i hrole
      split_ifs
      · exact h.set_same hthread ((h.ready index thread hthread).abandoned hrole) rfl
      · exact h
    · exact h

theorem inv_disturb (running : Bool) (networks : Finset PosixPath.Text) (h : Inv σ) :
    Inv (step config σ (.disturb running networks)) := by
  have hid : (step config σ (.disturb running networks)).shared.containerId =
      σ.shared.containerId := by
    simp only [step, Shared.containerId, Option.map_map]
    rfl
  refine ⟨?_, h.owned, ?_⟩
  · intro index thread hthread
    have hready := h.ready index thread hthread
    refine ⟨?_, hready.role, hready.locked, hready.networkLocked⟩
    rw [hid]
    exact hready.facts
  · intro hnetwork hcontainer
    rw [hid] at hcontainer
    exact h.resolving hnetwork hcontainer

theorem step_inv (σ : State) (a : Action) (hmeets : meets σ a = true) (h : Inv σ) :
    Inv (step config σ a) := by
  cases a with
  | call role => exact inv_call role h
  | enter index => exact inv_enter index h
  | advance index flag => exact inv_advance index flag h hmeets
  | exit index => exact inv_exit index h
  | abandon index => exact inv_abandon index h
  | disturb running networks => exact inv_disturb running networks h

theorem removesFenced_of_inv (h : Inv σ) (a : Action) : removesFenced σ a := by
  intro thread id hremoves
  unfold State.removes at hremoves
  split at hremoves <;> try cases hremoves
  split at hremoves <;> try cases hremoves
  rename_i index _ _ current hthread
  split at hremoves <;> try cases hremoves
  rename_i removed next hpc
  obtain ⟨container, _, hpair⟩ := Option.map_eq_some_iff.mp hremoves
  simp only [Prod.mk.injEq] at hpair
  obtain ⟨rfl, rfl⟩ := hpair
  have hready := h.ready _ _ hthread
  have hfacts := hready.facts
  have hrole := hready.role
  simp only [Facts, RemoveFacts, RoleOk, hpc] at hfacts hrole
  obtain ⟨_, hinspected, hmatches⟩ := hfacts
  unfold fenced
  cases hcall : current.role with
  | create request =>
    apply hinspected
    simp [hcall]
  | discover pinned =>
    refine ⟨hinspected (by simp [hcall]), ?_⟩
    cases next <;> simp_all
  | delete expectedGeneration =>
    simp only [hcall, Role.expectedGeneration, mismatches] at hmatches
    cases expectedGeneration with
    | none => exact .inl rfl
    | some generation => simpa using hmatches

theorem tidy_of_inv (h : Inv σ) : Tidy σ := by
  intro hidle hnetwork
  by_contra hgone
  have hcontainer : σ.shared.containerId = none := by
    simpa [Shared.containerId] using hgone
  have hsome : σ.shared.networkId.isSome = true := by
    simpa [Shared.networkId] using hnetwork
  obtain ⟨thread, hmem, hresolves⟩ := h.resolving hsome hcontainer
  have houtside := hidle thread hmem
  unfold resolves at hresolves
  split at hresolves <;> simp_all [Pc.inside]

end System

/-! ## Runs -/

/-- Every removal of a run under the condition is fenced, and no idle state that it reaches has a
network without a container. -/
theorem removals_of_meets (config : Config) (leftover : Option Container) (run : List Action)
    (hrun : Transition.Guarded (step config) (fun σ a => meets σ a = true)
      (State.initial leftover) run) :
    Transition.Guarded (step config) removesFenced (State.initial leftover) run ∧
      Tidy (Transition.exec (step config) (State.initial leftover) run) := by
  have hstep : ∀ σ a, meets σ a = true → Inv σ → Inv (step config σ a) := step_inv
  refine ⟨?_, ?_⟩
  · apply Transition.guarded_of_invariant (step config) hstep _ (inv_initial leftover) hrun
    exact fun σ a _ h => removesFenced_of_inv h a
  · exact tidy_of_inv
      (Transition.exec_invariant_of_guarded (step config) hstep (inv_initial leftover) hrun)

/-- A backend for the sandbox id `s`. -/
def localConfig : Config where
  userDataHostPath := "/srv/user-data".toList
  skillProjectionsHostPath := "/srv/skills".toList
  networkName := "sandbox-net-s".toList
  sandboxId := "s"
  sandboxUrl := "http://sandbox-s:8080"
  digits :=
    { isDigit := fun c => c.isDigit
      decimal := fun c => if c.isDigit then some (c.toNat - '0'.toNat) else none }

def threadRequest : CreateRequest where
  threadId := "t".toList
  uid := "alice".toList
  workdirPath := none
  inheritEnv := false
  lifecycle := none
  idleTimeoutSeconds := none

/-- A thread that takes a number of engine calls. -/
def advances (index count : Nat) : List Action :=
  List.replicate count (.advance index true)

/-- A container is created and inspected by the discovery of a WebSocket, and a deletion of its
generation starts. -/
def meetingRun : List Action :=
  [.call (.create threadRequest), .enter 0] ++ advances 0 10 ++ [.exit 0] ++
    [.call (.discover false), .enter 1] ++ advances 1 3 ++
    [.call (.delete (some 1)), .enter 2, .enter 2]

/-- The discovery ends before the deletion. -/
def orderedRun : List Action :=
  meetingRun ++ advances 1 3 ++ [.exit 1] ++ advances 2 10 ++ [.exit 2]

theorem orderedRun_removals :
    Transition.Guarded (step localConfig) removesFenced (State.initial none) orderedRun ∧
      Tidy (Transition.exec (step localConfig) (State.initial none) orderedRun) :=
  removals_of_meets localConfig none orderedRun (by decide +kernel)

/-- The deletion ends before the discovery repairs the network. -/
def leakingRun : List Action :=
  meetingRun ++ advances 2 10 ++ [.exit 2] ++ advances 1 6 ++ [.exit 1]

/-- The discovery creates the network again for a container that is gone, and nobody removes it. -/
theorem discover_leaks_network :
    ¬ Tidy (Transition.exec (step localConfig) (State.initial none) leakingRun) := by
  intro h
  have hidle : ∀ thread ∈
      (Transition.exec (step localConfig) (State.initial none) leakingRun).threads,
      thread.pc.inside = false := by
    decide +kernel
  have hcontainer := h hidle (by decide +kernel)
  revert hcontainer
  decide +kernel

end DockerSteps

end Yuanlei.Provisioner
