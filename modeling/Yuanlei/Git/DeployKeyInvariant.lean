import Yuanlei.Git.DeployKeys

/-!
# The invariant of the deploy keys

The session lock leaves the remote keys of a binding to one job at a time.  A key is created only when
the server shows none, so there is never a second one, and an identifier is stored only with the
status that ends the provision.  What a superseded or crashed job leaves behind is found again by its
title and its fingerprint.

Main results:

- `GitInv.of_holderStep`: a step of the job that holds the lock of a binding.
- `GitInv.request`: a request that changes the intent.
-/

namespace Yuanlei.DeployKeys

open ProjectGit (BindingStatus)

/-! ## Keys of a binding -/

theorem deployKeyTitle_injective {id id' : BindingId} (h : deployKeyTitle id = deployKeyTitle id') :
    id = id' := by
  have hlist := congrArg String.toList h
  simp only [deployKeyTitle, String.toList_append] at hlist
  exact String.ext (List.append_cancel_left hlist)

theorem isOurTitle_deployKeyTitle (id : BindingId) : isOurTitle (deployKeyTitle id) = true := by
  simp [isOurTitle, deployKeyTitle]

/-- The repository has a key with the title of the binding. -/
def HasKey (σ : GitSystem) (id : BindingId) (repository : RemoteRepository) (key : KeyId) : Prop :=
  ∃ value, σ.remote.get (repository, key) = some value ∧ value.title = deployKeyTitle id

/-- The identifier has been given to a key of the binding, whether or not it still exists. -/
def WasKey (σ : GitSystem) (id : BindingId) (repository : RemoteRepository) (key : KeyId) : Prop :=
  (repository, key) ∈ σ.usedKeys ∧
    ∀ value, σ.remote.get (repository, key) = some value → value.title = deployKeyTitle id

/-! ## The invariant -/

/-- Keys of the service belong to a binding, with its repository and its fingerprint, and there is
one for each binding at most. -/
structure RemoteInv (σ : GitSystem) : Prop where
  used : ∀ x value, σ.remote.get x = some value → x ∈ σ.usedKeys
  owned : ∀ repository key value, σ.remote.get (repository, key) = some value →
    isOurTitle value.title = true → ∃ id b, σ.bindings.get id = some b ∧
      value.title = deployKeyTitle id ∧ b.repository = repository ∧
        value.fingerprint = b.deployPublicKeyFingerprint
  unique : ∀ id repository repository' key key', HasKey σ id repository key →
    HasKey σ id repository' key' → key = key'

/-- What the status of a binding says of its keys and its token. -/
structure RowInv (σ : GitSystem) (id : BindingId) (b : Binding) : Prop where
  token : b.status ≠ .disabled → σ.tokenOf b.connectionId true = true
  intact : b.status ≠ .disabled → b.keyIntact = true
  destroyed : b.status = .disabled → b.keyIntact = false
  gone : b.status = .disabled → ∀ repository key, ¬ HasKey σ id repository key
  registered : b.status = .active → ∃ key, b.remoteDeployKeyId = some key ∧
    HasKey σ id b.repository key
  notStored : isProvisioning b.status = true → b.remoteDeployKeyId = none
  stored : ∀ key, b.remoteDeployKeyId = some key → WasKey σ id b.repository key ∧
    ∀ repository key', HasKey σ id repository key' → key' = key

/-- A provision of the job can end with the binding in this row. -/
structure Provisionable (j : Job) (b : Binding) : Prop where
  notStored : b.remoteDeployKeyId = none
  status : isProvisioning b.status = true ∨ isDeleting b.status = true
  current : b.operationGeneration = j.generation → isProvisioning b.status = true
  generation : j.generation ≤ b.operationGeneration

/-- The binding of a job that provisions. -/
def Provisions (σ : GitSystem) (j : Job) (p : Binding → Prop) : Prop :=
  ∃ b, σ.bindings.get j.binding = some b ∧ Provisionable j b ∧ p b

/-- The binding of a job that deletes. -/
def Deletes (σ : GitSystem) (j : Job) (p : Binding → Prop) : Prop :=
  ∃ b, σ.bindings.get j.binding = some b ∧ isDeleting b.status = true ∧ p b

/-- What a job in a phase relies on. -/
def PhaseInv (σ : GitSystem) (j : Job) : JobPhase → Prop
  | .repositoryRead t => Provisions σ j fun b => t = b.target j.binding
  | .branchesRead t => Provisions σ j fun b => t = b.target j.binding
  | .noKeyFound t => Provisions σ j fun b => t = b.target j.binding ∧
      ∀ repository key, ¬ HasKey σ j.binding repository key
  | .keyFound t key _ => Provisions σ j fun b => t = b.target j.binding ∧
      HasKey σ j.binding b.repository key
  | .bundleFetched t key => Provisions σ j fun b => t = b.target j.binding ∧
      HasKey σ j.binding b.repository key
  | .superseded t key => Provisions σ j fun b => t = b.target j.binding ∧
      HasKey σ j.binding b.repository key
  | .provisionFailing => Provisions σ j fun _ => True
  | .deleteStarted => Deletes σ j fun _ => True
  | .deleteRead t stored => Deletes σ j fun b => t = b.target j.binding ∧
      stored = b.remoteDeployKeyId
  | .deleteKeyFound t key => Deletes σ j fun b => t = b.target j.binding ∧
      WasKey σ j.binding b.repository key ∧
        ∀ repository key', HasKey σ j.binding repository key' → key' = key
  | .keyDeleted => Deletes σ j fun _ => ∀ repository key, ¬ HasKey σ j.binding repository key
  | .deleteFailing => Deletes σ j fun _ => True
  | _ => True

structure GitInv (σ : GitSystem) : Prop where
  remote : RemoteInv σ
  rows : ∀ id b, σ.bindings.get id = some b → RowInv σ id b
  exclusive : ∀ job job' j j', σ.jobs.get job = some j → σ.jobs.get job' = some j' →
    j.phase.holds = true → j'.phase.holds = true → j.binding = j'.binding → job = job'
  phases : ∀ job j, σ.jobs.get job = some j → PhaseInv σ j j.phase
  tokens : ∀ id c, σ.connections.get id = some c → c.active = true → c.tokenIntact = true

theorem gitInv_empty : GitInv .empty where
  remote :=
    { used := fun _ _ h => by cases h
      owned := fun _ _ _ h => by cases h
      unique := by
        rintro id repository repository' key key' ⟨value, hget, -⟩
        cases hget }
  rows _ _ h := by cases h
  exclusive _ _ _ _ h := by cases h
  phases _ _ h := by cases h
  tokens _ _ h := by cases h

/-! ## What does not concern a binding -/

section Frames

variable {σ σ' : GitSystem}

/-- The keys of a binding are the same, and no identifier comes back. -/
structure SameKeys (σ σ' : GitSystem) (id : BindingId) : Prop where
  hasKey : ∀ repository key, HasKey σ' id repository key ↔ HasKey σ id repository key
  wasKey : ∀ repository key, WasKey σ id repository key → WasKey σ' id repository key

theorem SameKeys.of_remote_eq (hremote : σ'.remote = σ.remote) (hused : σ'.usedKeys = σ.usedKeys)
    (id : BindingId) : SameKeys σ σ' id where
  hasKey repository key := by
    unfold HasKey
    rw [hremote]
  wasKey repository key h := by
    unfold WasKey at h ⊢
    rw [hremote, hused]
    exact h

variable {id : BindingId}

/-- Keys stay owned when rows keep their repository and their fingerprint. -/
theorem RemoteInv.modify (h : RemoteInv σ) {f : Binding → Binding}
    (hfields : ∀ b, (f b).repository = b.repository ∧
      (f b).deployPublicKeyFingerprint = b.deployPublicKeyFingerprint)
    (hremote : σ'.remote = σ.remote := by rfl) (hused : σ'.usedKeys = σ.usedKeys := by rfl)
    (hbindings : σ'.bindings = σ.bindings.modify id f := by rfl) : RemoteInv σ' where
  used x value hx := by
    rw [hremote] at hx
    rw [hused]
    exact h.used x value hx
  owned repository key value hkey htitle := by
    rw [hremote] at hkey
    obtain ⟨id', b, hb, hid, hrepository, hfingerprint⟩ :=
      h.owned repository key value hkey htitle
    rw [hbindings]
    by_cases heq : id' = id
    · subst heq
      refine ⟨id', f b, ?_, hid, (hfields b).1.trans hrepository,
        hfingerprint.trans (hfields b).2.symm⟩
      rw [Table.get_modify_self, hb, Option.map_some]
    · refine ⟨id', b, ?_, hid, hrepository, hfingerprint⟩
      rw [Table.get_modify_of_ne _ heq, hb]
  unique id' repository repository' key key' hkey hkey' := by
    unfold HasKey at hkey hkey'
    rw [hremote] at hkey hkey'
    exact h.unique id' repository repository' key key' hkey hkey'

variable {b : Binding}

theorem RowInv.sameKeys (h : RowInv σ id b) (hkeys : SameKeys σ σ' id)
    (htoken : b.status ≠ .disabled → σ.tokenOf b.connectionId true = true →
      σ'.tokenOf b.connectionId true = true) : RowInv σ' id b where
  token hstatus := htoken hstatus (h.token hstatus)
  intact := h.intact
  destroyed := h.destroyed
  gone hstatus repository key hkey :=
    h.gone hstatus repository key ((hkeys.hasKey repository key).mp hkey)
  registered hstatus := by
    obtain ⟨key, hstored, hkey⟩ := h.registered hstatus
    exact ⟨key, hstored, (hkeys.hasKey _ _).mpr hkey⟩
  notStored := h.notStored
  stored key hstored := by
    obtain ⟨hwas, honly⟩ := h.stored key hstored
    refine ⟨hkeys.wasKey _ _ hwas, fun repository key' hkey => ?_⟩
    exact honly repository key' ((hkeys.hasKey _ _).mp hkey)

/-- What a request leaves to a job that provisions or deletes. -/
structure Keeps (j : Job) (b b' : Binding) : Prop where
  repository : b'.repository = b.repository
  fingerprint : b'.deployPublicKeyFingerprint = b.deployPublicKeyFingerprint
  remoteDeployKeyId : b'.remoteDeployKeyId = b.remoteDeployKeyId
  provisionable : Provisionable j b → Provisionable j b'
  deleting : isDeleting b.status = true → isDeleting b'.status = true

/-- The binding of the job still has a row, which keeps what the job relies on. -/
def KeepsRow (σ σ' : GitSystem) (j : Job) : Prop :=
  ∀ b, σ.bindings.get j.binding = some b → ∃ b', σ'.bindings.get j.binding = some b' ∧ Keeps j b b'

theorem Keeps.refl (j : Job) (b : Binding) : Keeps j b b :=
  ⟨rfl, rfl, rfl, id, id⟩

variable {j : Job}

theorem Keeps.target {b' : Binding} (h : Keeps j b b') (id : BindingId) :
    b'.target id = b.target id := by
  simp only [Binding.target, h.repository, h.fingerprint]

theorem KeepsRow.of_get_eq
    (h : ∀ b, σ.bindings.get j.binding = some b → σ'.bindings.get j.binding = some b) :
    KeepsRow σ σ' j := fun b hb => ⟨b, h b hb, .refl j b⟩

variable {p q : Binding → Prop}

theorem Provisions.imp (h : Provisions σ j p)
    (hrow : KeepsRow σ σ' j) (himp : ∀ b b', Keeps j b b' → p b → q b') : Provisions σ' j q := by
  obtain ⟨b, hget, hprovisionable, hp⟩ := h
  obtain ⟨b', hget', hkeeps⟩ := hrow b hget
  exact ⟨b', hget', hkeeps.provisionable hprovisionable, himp b b' hkeeps hp⟩

theorem Deletes.imp (h : Deletes σ j p)
    (hrow : KeepsRow σ σ' j) (himp : ∀ b b', Keeps j b b' → p b → q b') : Deletes σ' j q := by
  obtain ⟨b, hget, hdeleting, hp⟩ := h
  obtain ⟨b', hget', hkeeps⟩ := hrow b hget
  exact ⟨b', hget', hkeeps.deleting hdeleting, himp b b' hkeeps hp⟩

theorem PhaseInv.sameKeys {phase : JobPhase} (h : PhaseInv σ j phase)
    (hrow : KeepsRow σ σ' j) (hkeys : SameKeys σ σ' j.binding) : PhaseInv σ' j phase := by
  have hnone : (∀ repository key, ¬ HasKey σ j.binding repository key) →
      ∀ repository key, ¬ HasKey σ' j.binding repository key := fun hnone repository key hkey =>
    hnone repository key ((hkeys.hasKey _ _).mp hkey)
  have htarget : ∀ t b b', Keeps j b b' → t = b.target j.binding → t = b'.target j.binding :=
    fun t b b' hkeeps ht => ht.trans (hkeeps.target j.binding).symm
  have hhas : ∀ key b b', Keeps j b b' → HasKey σ j.binding b.repository key →
      HasKey σ' j.binding b'.repository key := fun key b b' hkeeps hkey => by
    rw [hkeeps.repository]
    exact (hkeys.hasKey _ _).mpr hkey
  cases phase with
  | waiting => trivial
  | locked => trivial
  | provisionStarted => trivial
  | repositoryRead t => exact Provisions.imp h hrow fun b b' => htarget t b b'
  | branchesRead t => exact Provisions.imp h hrow fun b b' => htarget t b b'
  | noKeyFound t =>
    exact Provisions.imp h hrow fun b b' hk hp => ⟨htarget t b b' hk hp.1, hnone hp.2⟩
  | keyFound t key readOnly =>
    exact Provisions.imp h hrow fun b b' hk hp => ⟨htarget t b b' hk hp.1, hhas key b b' hk hp.2⟩
  | bundleFetched t key =>
    exact Provisions.imp h hrow fun b b' hk hp => ⟨htarget t b b' hk hp.1, hhas key b b' hk hp.2⟩
  | superseded t key =>
    exact Provisions.imp h hrow fun b b' hk hp => ⟨htarget t b b' hk hp.1, hhas key b b' hk hp.2⟩
  | provisionFailing => exact Provisions.imp h hrow fun _ _ _ hp => hp
  | deleteStarted => exact Deletes.imp h hrow fun _ _ _ hp => hp
  | deleteRead t stored =>
    refine Deletes.imp h hrow fun b b' hk hp => ⟨htarget t b b' hk hp.1, ?_⟩
    exact hp.2.trans hk.remoteDeployKeyId.symm
  | deleteKeyFound t key =>
    refine Deletes.imp h hrow fun b b' hk hp => ⟨htarget t b b' hk hp.1, ?_, ?_⟩
    · rw [hk.repository]
      exact hkeys.wasKey _ _ hp.2.1
    · exact fun repository key' hkey => hp.2.2 repository key' ((hkeys.hasKey _ _).mp hkey)
  | keyDeleted => exact Deletes.imp h hrow fun _ _ _ hp => hnone hp
  | deleteFailing => exact Deletes.imp h hrow fun _ _ _ hp => hp
  | ended => trivial

end Frames

/-! ## A step of the job that holds the lock -/

section Holder

variable {σ σ' : GitSystem} {job : JobId} {j : Job}

/-- A step of a job concerns its own binding and the keys of that binding alone. -/
structure HolderStep (σ σ' : GitSystem) (job : JobId) (j : Job) (phase : JobPhase) : Prop where
  jobs : σ'.jobs = σ.jobs.modify job fun j => { j with phase }
  connections : σ'.connections = σ.connections
  bindings : ∀ id, id ≠ j.binding → σ'.bindings.get id = σ.bindings.get id
  keys : ∀ id, id ≠ j.binding → SameKeys σ σ' id
  remote : RemoteInv σ'
  row : ∀ b, σ'.bindings.get j.binding = some b → RowInv σ' j.binding b
  next : PhaseInv σ' j phase

variable {phase : JobPhase}

theorem PhaseInv.of_not_holds (h : phase.holds = false) :
    PhaseInv σ j phase := by
  cases phase with
  | waiting => trivial
  | ended => trivial
  | _ => cases h

/-- What a job relies on depends on its binding and its generation alone. -/
theorem PhaseInv.withPhase {phase' : JobPhase} (h : PhaseInv σ j phase) :
    PhaseInv σ { j with phase := phase' } phase := by
  cases phase <;>
    first
    | trivial
    | exact h
    | (obtain ⟨b, hget, hb, hp⟩ := h
       exact ⟨b, hget, ⟨hb.notStored, hb.status, hb.current, hb.generation⟩, hp⟩)

section

variable (h : GitInv σ)
include h

theorem GitInv.of_holderStep (hget : σ.jobs.get job = some j)
    (hholds : j.phase.holds = true) (phase : JobPhase) (hstep : HolderStep σ σ' job j phase) :
    GitInv σ' where
  remote := hstep.remote
  rows id b hb := by
    by_cases hid : id = j.binding
    · subst hid
      exact hstep.row b hb
    · rw [hstep.bindings id hid] at hb
      apply (h.rows id b hb).sameKeys (hstep.keys id hid)
      intro _ htoken
      unfold GitSystem.tokenOf at htoken ⊢
      rw [hstep.connections]
      exact htoken
  exclusive := by
    intro job₁ job₂ j₁ j₂ hjob₁ hjob₂ hholds₁ hholds₂ hbinding
    -- a job that holds the lock afterwards held it before
    have hbefore : ∀ job' j', σ'.jobs.get job' = some j' → j'.phase.holds = true →
        ∃ j₀, σ.jobs.get job' = some j₀ ∧ j₀.phase.holds = true ∧ j₀.binding = j'.binding := by
      intro job' j' hjob' hholds'
      rw [hstep.jobs, Table.get_modify] at hjob'
      split at hjob'
      · rename_i heq
        subst heq
        rw [hget] at hjob'
        cases hjob'
        exact ⟨j, hget, hholds, rfl⟩
      · exact ⟨j', hjob', hholds', rfl⟩
    obtain ⟨j₁', hget₁, hheld₁, hb₁⟩ := hbefore job₁ j₁ hjob₁ hholds₁
    obtain ⟨j₂', hget₂, hheld₂, hb₂⟩ := hbefore job₂ j₂ hjob₂ hholds₂
    exact h.exclusive job₁ job₂ j₁' j₂' hget₁ hget₂ hheld₁ hheld₂ (by rw [hb₁, hb₂, hbinding])
  phases := by
    intro job' j' hjob'
    rw [hstep.jobs, Table.get_modify] at hjob'
    split at hjob'
    · rename_i heq
      subst heq
      rw [hget] at hjob'
      cases hjob'
      exact hstep.next.withPhase
    · rename_i hne
      by_cases hholds' : j'.phase.holds = true
      · have hbinding : j'.binding ≠ j.binding := fun hbinding =>
          hne (h.exclusive job' job j' j hjob' hget hholds' hholds hbinding)
        have hrow : KeepsRow σ σ' j' := .of_get_eq fun b hb => (hstep.bindings _ hbinding).trans hb
        exact (h.phases job' j' hjob').sameKeys hrow (hstep.keys _ hbinding)
      · exact PhaseInv.of_not_holds (by simpa using hholds')
  tokens id c hc := h.tokens id c (by rw [← hstep.connections]; exact hc)

theorem GitInv.withJobs {jobs : Table JobId Job}
    (hjobs : ∀ job' j', jobs.get job' = some j' → σ.jobs.get job' = some j' ∨
      job' = job ∧ PhaseInv σ j' j'.phase ∧ (j'.phase.holds = true → ∀ job₀ j₀,
        σ.jobs.get job₀ = some j₀ → j₀.phase.holds = true → j₀.binding = j'.binding →
          job₀ = job)) : GitInv { σ with jobs } where
  remote := ⟨h.remote.used, h.remote.owned, h.remote.unique⟩
  rows id b hb := (h.rows id b hb).sameKeys (.of_remote_eq (by rfl) (by rfl) id)
    fun _ htoken => htoken
  exclusive := by
    intro job₁ job₂ j₁ j₂ hjob₁ hjob₂ hholds₁ hholds₂ hbinding
    rcases hjobs job₁ j₁ hjob₁ with hget₁ | ⟨rfl, -, hlock₁⟩
    · rcases hjobs job₂ j₂ hjob₂ with hget₂ | ⟨rfl, -, hlock₂⟩
      · exact h.exclusive job₁ job₂ j₁ j₂ hget₁ hget₂ hholds₁ hholds₂ hbinding
      · exact hlock₂ hholds₂ job₁ j₁ hget₁ hholds₁ hbinding
    · rcases hjobs job₂ j₂ hjob₂ with hget₂ | ⟨rfl, -, -⟩
      · exact (hlock₁ hholds₁ job₂ j₂ hget₂ hholds₂ hbinding.symm).symm
      · rfl
  phases job' j' hjob' := by
    have hinv : PhaseInv σ j' j'.phase := by
      rcases hjobs job' j' hjob' with hget' | ⟨-, hnext, -⟩
      · exact h.phases job' j' hget'
      · exact hnext
    exact hinv.sameKeys (.of_get_eq fun b hb => hb) (.of_remote_eq (by rfl) (by rfl) _)
  tokens := h.tokens

theorem GitInv.setPhase (hnext : ∀ j, σ.jobs.get job = some j →
    PhaseInv σ j phase ∧ (phase.holds = true → ∀ job' j', σ.jobs.get job' = some j' →
      j'.phase.holds = true → j'.binding = j.binding → job' = job)) :
    GitInv (σ.setPhase job phase) := by
  refine @GitInv.withJobs σ job h _ fun job' j' hjob' => ?_
  rw [Table.get_modify] at hjob'
  split at hjob'
  · rename_i heq
    rw [heq] at hjob'
    obtain ⟨j, hget, rfl⟩ := Option.map_eq_some_iff.mp hjob'
    exact .inr ⟨heq, (hnext j hget).1.withPhase, (hnext j hget).2⟩
  · exact .inl hjob'

/-- The holder of the lock reads only. -/
theorem GitInv.advance (hget : σ.jobs.get job = some j)
    (hholds : j.phase.holds = true) (hnext : PhaseInv σ j phase) :
    GitInv (σ.setPhase job phase) := by
  refine h.setPhase fun j' hget' => ?_
  cases hget.symm.trans hget'
  exact ⟨hnext, fun _ job' j' hjob' hholds' hbinding =>
    h.exclusive job' job j' j hjob' hget hholds' hholds hbinding⟩

theorem GitInv.writeRow (hget : σ.jobs.get job = some j)
    (hholds : j.phase.holds = true) {f : Binding → Binding}
    (hfields : ∀ b, (f b).repository = b.repository ∧
      (f b).deployPublicKeyFingerprint = b.deployPublicKeyFingerprint)
    (hrow : ∀ b, σ.bindings.get j.binding = some b → RowInv σ j.binding (f b)) :
    GitInv ((σ.modifyBinding j.binding f).setPhase job .ended) := by
  have hkeys : ∀ id, SameKeys σ ((σ.modifyBinding j.binding f).setPhase job .ended) id :=
    fun id => .of_remote_eq (by rfl) (by rfl) id
  refine h.of_holderStep hget hholds .ended
    { jobs := rfl
      connections := rfl
      bindings := fun id hid => Table.get_modify_of_ne _ hid _
      keys := fun id _ => hkeys id
      remote := h.remote.modify hfields
      row := ?_
      next := trivial }
  intro b hb
  change (σ.bindings.modify j.binding f).get j.binding = some b at hb
  rw [Table.get_modify_self] at hb
  obtain ⟨b₀, hb₀, rfl⟩ := Option.map_eq_some_iff.mp hb
  exact (hrow b₀ hb₀).sameKeys (hkeys _) fun _ htoken => htoken

end

end Holder

/-! ## Requests -/

section Requests

variable {σ : GitSystem}

/-- What a request makes of a binding: nothing, or a new generation that provisions or deletes. -/
structure Requested (b b' : Binding) : Prop where
  connectionId : b'.connectionId = b.connectionId
  repository : b'.repository = b.repository
  fingerprint : b'.deployPublicKeyFingerprint = b.deployPublicKeyFingerprint
  remoteDeployKeyId : b'.remoteDeployKeyId = b.remoteDeployKeyId
  keyIntact : b'.keyIntact = b.keyIntact
  change : (b'.status = b.status ∧ b'.operationGeneration = b.operationGeneration) ∨
    (b'.operationGeneration = b.operationGeneration + 1 ∧ b.status ≠ .disabled ∧
      (b.status = .provisionFailed ∧ b'.status = .provisioning ∨ b'.status = .deleting))

theorem requested_retried (b : Binding) : Requested b (retried b) := by
  unfold retried
  cases hstatus : b.status <;> constructor <;> simp [hstatus]

theorem requested_deactivated (b : Binding) : Requested b (deactivated b) := by
  unfold deactivated
  split <;> constructor <;> simp_all

variable {b b' : Binding}

theorem Requested.provisionable {j : Job} (h : Requested b b')
    (hb : Provisionable j b) : Provisionable j b' := by
  rcases h.change with ⟨hstatus, hgeneration⟩ | ⟨hgeneration, -, hstatus⟩
  · constructor
    · rw [h.remoteDeployKeyId, hb.notStored]
    · rw [hstatus]
      exact hb.status
    · rw [hstatus, hgeneration]
      exact hb.current
    · rw [hgeneration]
      exact hb.generation
  · have hle := hb.generation
    constructor
    · rw [h.remoteDeployKeyId, hb.notStored]
    · rcases hstatus with ⟨-, hstatus⟩ | hstatus
      · exact .inl (by rw [hstatus]; rfl)
      · exact .inr (by rw [hstatus]; rfl)
    · omega
    · omega

theorem Requested.deleting (h : Requested b b')
    (hb : isDeleting b.status = true) : isDeleting b'.status = true := by
  rcases h.change with ⟨hstatus, -⟩ | ⟨-, -, ⟨hfailed, -⟩ | hstatus⟩
  · rw [hstatus]
    exact hb
  · rw [hfailed] at hb
    cases hb
  · rw [hstatus]
    rfl

variable {id : BindingId}

theorem Requested.rowInv (h : Requested b b') (hb : RowInv σ id b) : RowInv σ id b' := by
  have hstatus : b'.status = b.status ∨
      (b.status ≠ .disabled ∧ b'.status ≠ .disabled ∧ b'.status ≠ .active ∧
        (isProvisioning b'.status = true → isProvisioning b.status = true)) := by
    rcases h.change with ⟨hstatus, -⟩ | ⟨-, hlive, ⟨hfailed, hstatus⟩ | hstatus⟩
    · exact .inl hstatus
    · exact .inr ⟨hlive, by simp [hstatus], by simp [hstatus], by simp [hfailed, isProvisioning]⟩
    · exact .inr ⟨hlive, by simp [hstatus], by simp [hstatus], by simp [hstatus, isProvisioning]⟩
  rcases hstatus with hstatus | ⟨hlive, hlive', hinactive, hprovisioning⟩
  · constructor
    · rw [hstatus, h.connectionId]
      exact hb.token
    · rw [hstatus, h.keyIntact]
      exact hb.intact
    · rw [hstatus, h.keyIntact]
      exact hb.destroyed
    · rw [hstatus]
      exact hb.gone
    · rw [hstatus, h.remoteDeployKeyId, h.repository]
      exact hb.registered
    · rw [hstatus, h.remoteDeployKeyId]
      exact hb.notStored
    · rw [h.remoteDeployKeyId, h.repository]
      exact hb.stored
  · constructor
    · rw [h.connectionId]
      exact fun _ => hb.token hlive
    · rw [h.keyIntact]
      exact fun _ => hb.intact hlive
    · exact fun hdisabled => absurd hdisabled hlive'
    · exact fun hdisabled => absurd hdisabled hlive'
    · exact fun hactive => absurd hactive hinactive
    · rw [h.remoteDeployKeyId]
      exact fun hstatus => hb.notStored (hprovisioning hstatus)
    · rw [h.remoteDeployKeyId, h.repository]
      exact hb.stored

theorem GitInv.request (h : GitInv σ) {f : Binding → Binding} (hf : ∀ b, Requested b (f b))
    (id : BindingId) : GitInv (σ.modifyBinding id f) := by
  have hkeys : ∀ id', SameKeys σ (σ.modifyBinding id f) id' :=
    fun id' => .of_remote_eq (by rfl) (by rfl) id'
  have hrows : ∀ id' b', (σ.modifyBinding id f).bindings.get id' = some b' →
      ∃ b, σ.bindings.get id' = some b ∧ Requested b b' := by
    intro id' b' hb'
    change (σ.bindings.modify id f).get id' = some b' at hb'
    rw [Table.get_modify] at hb'
    split at hb'
    · obtain ⟨b, hb, rfl⟩ := Option.map_eq_some_iff.mp hb'
      exact ⟨b, hb, hf b⟩
    · exact ⟨b', hb', ⟨rfl, rfl, rfl, rfl, rfl, .inl ⟨rfl, rfl⟩⟩⟩
  constructor
  case remote => exact h.remote.modify fun b => ⟨(hf b).repository, (hf b).fingerprint⟩
  case rows =>
    intro id' b' hb'
    obtain ⟨b, hb, hrequested⟩ := hrows id' b' hb'
    exact (hrequested.rowInv (h.rows id' b hb)).sameKeys (hkeys id') fun _ htoken => htoken
  case exclusive => exact h.exclusive
  case phases =>
    intro job j hjob
    refine (h.phases job j hjob).sameKeys (fun b hb => ?_) (hkeys _)
    change ∃ b', (σ.bindings.modify id f).get j.binding = some b' ∧ _
    rw [Table.get_modify]
    split
    · have hrequested := hf b
      exact ⟨f b, by rw [hb, Option.map_some], hrequested.repository, hrequested.fingerprint,
        hrequested.remoteDeployKeyId, hrequested.provisionable, hrequested.deleting⟩
    · exact ⟨b, hb, .refl j b⟩
  case tokens => exact h.tokens

theorem createBinding_inv (h : GitInv σ) (id : BindingId) (connectionId : ConnectionId)
    (owner name fingerprint : String) :
    GitInv (createBinding σ id connectionId owner name fingerprint) := by
  unfold createBinding
  split
  · exact h
  rename_i c hc
  split
  case isFalse => exact h
  rename_i hactive
  split
  · exact h
  rename_i bindings hinsert
  obtain ⟨hfree, hget⟩ := Table.get_of_insert hinsert
  have hkeys : ∀ id', SameKeys σ { σ with bindings } id' :=
    fun id' => .of_remote_eq (by rfl) (by rfl) id'
  have hold : ∀ id' b, σ.bindings.get id' = some b → bindings.get id' = some b := by
    intro id' b hb
    rw [hget, if_neg (fun heq => by rw [heq, hfree] at hb; cases hb)]
    exact hb
  constructor
  case remote =>
    refine ⟨h.remote.used, ?_, h.remote.unique⟩
    intro repository key value hkey htitle
    obtain ⟨id', b, hb, howned⟩ := h.remote.owned repository key value hkey htitle
    exact ⟨id', b, hold id' b hb, howned⟩
  case rows =>
    intro id' b hb
    rw [hget] at hb
    split at hb
    · rename_i heq
      cases hb
      constructor
      case token =>
        simp [GitSystem.tokenOf, hc, h.tokens _ c hc hactive, hactive]
      case intact => exact fun _ => rfl
      case destroyed => exact fun hdisabled => by cases hdisabled
      case gone => exact fun hdisabled => by cases hdisabled
      case registered => exact fun hstatus => by cases hstatus
      case notStored => exact fun _ => rfl
      case stored => exact fun key hstored => by cases hstored
    · exact (h.rows id' b hb).sameKeys (hkeys id') fun _ htoken => htoken
  case exclusive => exact h.exclusive
  case phases =>
    intro job j hjob
    exact (h.phases job j hjob).sameKeys (.of_get_eq (hold j.binding)) (hkeys _)
  case tokens => exact h.tokens

variable {connections : Table ConnectionId Connection}

/-- A write to the connections that leaves the tokens of live bindings alone. -/
theorem GitInv.setConnections (h : GitInv σ)
    (htokens : ∀ id c, connections.get id = some c → c.active = true → c.tokenIntact = true)
    (hlive : ∀ id b, σ.bindings.get id = some b → b.status ≠ .disabled →
      σ.tokenOf b.connectionId true = true →
        GitSystem.tokenOf { σ with connections } b.connectionId true = true) :
    GitInv { σ with connections } := by
  have hkeys : ∀ id, SameKeys σ { σ with connections } id :=
    fun id => .of_remote_eq (by rfl) (by rfl) id
  constructor
  case remote => exact ⟨h.remote.used, h.remote.owned, h.remote.unique⟩
  case rows => exact fun id b hb => (h.rows id b hb).sameKeys (hkeys id) (hlive id b hb)
  case exclusive => exact h.exclusive
  case phases =>
    intro job j hjob
    exact (h.phases job j hjob).sameKeys (.of_get_eq fun b hb => hb) (hkeys _)
  case tokens => exact htokens

theorem createConnection_inv (h : GitInv σ) {id : ConnectionId} {apiOrigin : String}
    (hinsert : σ.connections.insert id { apiOrigin, active := true, tokenIntact := true } =
      some connections) : GitInv { σ with connections } := by
  obtain ⟨hfree, hget⟩ := Table.get_of_insert hinsert
  apply h.setConnections
  · intro id' c hc hactive
    rw [hget] at hc
    split at hc
    · cases hc
      rfl
    · exact h.tokens id' c hc hactive
  · intro id' b _ _ htoken
    change (connections.get b.connectionId).any _ = true
    rw [hget]
    split
    · rfl
    · exact htoken

theorem connectionHasLiveBindings_of_get (hget : σ.bindings.get id = some b)
    (hlive : b.status ≠ .disabled) :
    σ.connectionHasLiveBindings b.connectionId = true := by
  have hmem : (id, b) ∈ σ.bindings.rows := (Table.mem_rows_iff _ _ _).mpr hget
  apply List.any_eq_true.mpr
  exact ⟨(id, b), hmem, by simp [hlive]⟩

theorem deleteConnection_inv (h : GitInv σ) (id : ConnectionId) :
    GitInv (deleteConnection σ id) := by
  unfold deleteConnection
  split
  · exact h
  split
  case isFalse => exact h
  rename_i hdelete
  simp only [Bool.and_eq_true, Bool.not_eq_true'] at hdelete
  apply h.setConnections
  · intro id' c hc hactive
    rw [Table.get_modify] at hc
    split at hc
    · obtain ⟨c₀, -, rfl⟩ := Option.map_eq_some_iff.mp hc
      cases hactive
    · exact h.tokens id' c hc hactive
  · intro id' b hb hlive htoken
    have hne : b.connectionId ≠ id := by
      intro heq
      have hhas := connectionHasLiveBindings_of_get hb hlive
      rw [heq, hdelete.2] at hhas
      cases hhas
    change ((σ.connections.modify id _).get b.connectionId).any _ = true
    rw [Table.get_modify_of_ne _ hne]
    exact htoken

theorem enqueue_inv (h : GitInv σ) {job : JobId} {binding : BindingId} {generation : Nat}
    {jobs : Table JobId Job}
    (hinsert : σ.jobs.insert job { binding, generation, phase := .waiting } = some jobs) :
    GitInv { σ with jobs } := by
  obtain ⟨hfree, hget⟩ := Table.get_of_insert hinsert
  refine @GitInv.withJobs σ job h jobs fun job' j' hjob' => ?_
  rw [hget] at hjob'
  split at hjob'
  · rename_i heq
    cases hjob'
    exact .inr ⟨heq, trivial, fun hholds => by cases hholds⟩
  · exact .inl hjob'

end Requests

/-! ## Writes to the remote repositories -/

section Remote

variable {σ σ' : GitSystem} {repository : RemoteRepository} {key : KeyId} {value : DeployKey}

theorem addKey_eq_some (h : σ.addKey repository key value = some σ') :
    (repository, key) ∉ σ.usedKeys ∧
      σ' = { σ with
        remote := σ.remote.upsert (repository, key) value
        usedKeys := (repository, key) :: σ.usedKeys } := by
  unfold GitSystem.addKey at h
  split at h
  · cases h
  · rename_i hfresh
    exact ⟨hfresh, (Option.some.inj h).symm⟩

theorem get_remote_addKey (h : σ.addKey repository key value = some σ')
    (x : RemoteRepository × KeyId) :
    σ'.remote.get x = if x = (repository, key) then some value else σ.remote.get x := by
  obtain ⟨-, rfl⟩ := addKey_eq_some h
  exact Table.get_upsert _ _ _ _

theorem RemoteInv.hasKey_addKey (hinv : RemoteInv σ)
    (h : σ.addKey repository key value = some σ') (id : BindingId)
    (repository' : RemoteRepository) (key' : KeyId) :
    HasKey σ' id repository' key' ↔ HasKey σ id repository' key' ∨
      ((repository', key') = (repository, key) ∧ value.title = deployKeyTitle id) := by
  have hfresh := (addKey_eq_some h).1
  unfold HasKey
  rw [get_remote_addKey h]
  constructor
  · rintro ⟨value', hget, htitle⟩
    split at hget
    · cases hget
      exact .inr ⟨‹_›, htitle⟩
    · exact .inl ⟨value', hget, htitle⟩
  · rintro (⟨value', hget, htitle⟩ | ⟨heq, htitle⟩)
    · have hne : (repository', key') ≠ (repository, key) := fun heq =>
        hfresh (heq ▸ hinv.used _ _ hget)
      exact ⟨value', by rw [if_neg hne, hget], htitle⟩
    · exact ⟨value, by rw [if_pos heq], htitle⟩

variable {id : BindingId}

theorem SameKeys.addKey (hinv : RemoteInv σ) (h : σ.addKey repository key value = some σ')
    (htitle : value.title ≠ deployKeyTitle id) : SameKeys σ σ' id where
  hasKey repository' key' := by
    rw [hinv.hasKey_addKey h]
    exact ⟨fun hkey => hkey.resolve_right fun heq => htitle heq.2, .inl⟩
  wasKey repository' key' hwas := by
    obtain ⟨hused, honly⟩ := hwas
    obtain ⟨hfresh, heq⟩ := addKey_eq_some h
    constructor
    · rw [heq]
      exact List.mem_cons_of_mem _ hused
    · intro value' hget
      have hne : (repository', key') ≠ (repository, key) := fun hslot => hfresh (hslot ▸ hused)
      rw [get_remote_addKey h, if_neg hne] at hget
      exact honly value' hget

theorem RemoteInv.addKey (hinv : RemoteInv σ) (h : σ.addKey repository key value = some σ')
    (howner : isOurTitle value.title = true → ∃ id b, σ.bindings.get id = some b ∧
      value.title = deployKeyTitle id ∧ b.repository = repository ∧
        value.fingerprint = b.deployPublicKeyFingerprint ∧
          ∀ repository' key', ¬ HasKey σ id repository' key') : RemoteInv σ' := by
  obtain ⟨hfresh, heq⟩ := addKey_eq_some h
  have hbindings : σ'.bindings = σ.bindings := by rw [heq]
  constructor
  case used =>
    intro x value' hget
    rw [get_remote_addKey h] at hget
    rw [heq]
    split at hget
    · rename_i hslot
      rw [hslot]
      exact List.mem_cons_self
    · exact List.mem_cons_of_mem _ (hinv.used x value' hget)
  case owned =>
    intro repository' key' value' hget htitle
    rw [get_remote_addKey h] at hget
    rw [hbindings]
    split at hget
    · rename_i hslot
      cases hget
      obtain ⟨id, b, hb, hid, hrepository, hfingerprint, -⟩ := howner htitle
      exact ⟨id, b, hb, hid, hrepository.trans (Prod.mk.inj hslot).1.symm, hfingerprint⟩
    · exact hinv.owned repository' key' value' hget htitle
  case unique =>
    intro id repository₁ repository₂ key₁ key₂ hkey₁ hkey₂
    rw [hinv.hasKey_addKey h] at hkey₁ hkey₂
    -- a binding whose title the new key carries had no key
    have hfirst : value.title = deployKeyTitle id → ∀ repository' key',
        ¬ HasKey σ id repository' key' := by
      intro htitle
      obtain ⟨id', b, -, hid, -, -, hnone⟩ :=
        howner (by rw [htitle]; exact isOurTitle_deployKeyTitle id)
      have hsame : id = id' := deployKeyTitle_injective (htitle.symm.trans hid)
      rw [hsame]
      exact hnone
    rcases hkey₁ with hkey₁ | ⟨hslot₁, htitle₁⟩
    · rcases hkey₂ with hkey₂ | ⟨-, htitle₂⟩
      · exact hinv.unique id repository₁ repository₂ key₁ key₂ hkey₁ hkey₂
      · exact absurd hkey₁ (hfirst htitle₂ _ _)
    · rcases hkey₂ with hkey₂ | ⟨hslot₂, -⟩
      · exact absurd hkey₂ (hfirst htitle₁ _ _)
      · exact (Prod.mk.inj hslot₁).2.trans (Prod.mk.inj hslot₂).2.symm

variable {repository' : RemoteRepository} {key' : KeyId}

theorem hasKey_of_deleteDeployKey
    (h : HasKey (σ.deleteDeployKey repository key) id repository' key') :
    (repository', key') ≠ (repository, key) ∧ HasKey σ id repository' key' := by
  obtain ⟨value, hget, htitle⟩ := h
  change (σ.remote.erase (repository, key)).get (repository', key') = some value at hget
  rw [Table.get_erase] at hget
  split at hget
  · cases hget
  · exact ⟨‹_›, value, hget, htitle⟩

theorem WasKey.deleteDeployKey (h : WasKey σ id repository' key') :
    WasKey (σ.deleteDeployKey repository key) id repository' key' := by
  refine ⟨h.1, fun value hget => ?_⟩
  change (σ.remote.erase (repository, key)).get (repository', key') = some value at hget
  rw [Table.get_erase] at hget
  split at hget
  · cases hget
  · exact h.2 value hget

theorem SameKeys.deleteDeployKey (h : ¬ HasKey σ id repository key) : SameKeys σ
    (σ.deleteDeployKey repository key) id where
  hasKey repository' key' := by
    constructor
    · exact fun hkey => (hasKey_of_deleteDeployKey hkey).2
    · intro hkey
      have hne : (repository', key') ≠ (repository, key) := by
        intro heq
        obtain ⟨rfl, rfl⟩ := Prod.mk.inj heq
        exact h hkey
      obtain ⟨value, hget, htitle⟩ := hkey
      refine ⟨value, ?_, htitle⟩
      change (σ.remote.erase (repository, key)).get (repository', key') = some value
      rw [Table.get_erase, if_neg hne]
      exact hget
  wasKey _ _ hwas := hwas.deleteDeployKey

theorem RemoteInv.deleteDeployKey (hinv : RemoteInv σ) :
    RemoteInv (σ.deleteDeployKey repository key) := by
  have hget : ∀ x value, (σ.deleteDeployKey repository key).remote.get x = some value →
      σ.remote.get x = some value := by
    intro x value hx
    change (σ.remote.erase (repository, key)).get x = some value at hx
    rw [Table.get_erase] at hx
    split at hx
    · cases hx
    · exact hx
  constructor
  case used => exact fun x value hx => hinv.used x value (hget x value hx)
  case owned => exact fun repository' key' value hx => hinv.owned _ _ value (hget _ value hx)
  case unique =>
    intro id repository₁ repository₂ key₁ key₂ hkey₁ hkey₂
    exact hinv.unique id _ _ _ _ (hasKey_of_deleteDeployKey hkey₁).2
      (hasKey_of_deleteDeployKey hkey₂).2

theorem GitInv.of_sameKeys (h : GitInv σ) (hbindings : σ'.bindings = σ.bindings)
    (hconnections : σ'.connections = σ.connections) (hjobs : σ'.jobs = σ.jobs)
    (hremote : RemoteInv σ') (hkeys : ∀ id, SameKeys σ σ' id) : GitInv σ' where
  remote := hremote
  rows id b hb := by
    rw [hbindings] at hb
    apply (h.rows id b hb).sameKeys (hkeys id)
    intro _ htoken
    unfold GitSystem.tokenOf at htoken ⊢
    rw [hconnections]
    exact htoken
  exclusive := by
    rw [hjobs]
    exact h.exclusive
  phases job j hjob := by
    rw [hjobs] at hjob
    exact (h.phases job j hjob).sameKeys (.of_get_eq fun b hb => by rw [hbindings, hb]) (hkeys _)
  tokens := by
    rw [hconnections]
    exact h.tokens

theorem addForeignKey_inv (h : GitInv σ) (hforeign : isOurTitle value.title = false)
    (hadd : σ.addKey repository key value = some σ') : GitInv σ' := by
  obtain ⟨-, heq⟩ := addKey_eq_some hadd
  have hremote : RemoteInv σ' :=
    h.remote.addKey hadd fun hours => by rw [hforeign] at hours; cases hours
  refine h.of_sameKeys (by rw [heq]) (by rw [heq]) (by rw [heq]) hremote fun id => ?_
  refine SameKeys.addKey h.remote hadd fun htitle => ?_
  rw [htitle, isOurTitle_deployKeyTitle] at hforeign
  cases hforeign

theorem removeForeignKey_inv (h : GitInv σ)
    (hforeign : ((σ.remote.get (repository, key)).any fun k => isOurTitle k.title) = false) :
    GitInv (σ.deleteDeployKey repository key) := by
  refine h.of_sameKeys rfl rfl rfl h.remote.deleteDeployKey fun id => ?_
  refine SameKeys.deleteDeployKey ?_
  rintro ⟨value', hget, htitle⟩
  rw [hget, Option.any_some, htitle, isOurTitle_deployKeyTitle] at hforeign
  cases hforeign

end Remote

end Yuanlei.DeployKeys
