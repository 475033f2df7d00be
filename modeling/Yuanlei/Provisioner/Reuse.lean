import Yuanlei.Provisioner.Docker
import Yuanlei.Provisioner.Kubernetes

/-!
# Reuse of sandboxes and identities

What a record returned by `create` stands for, in both backends, over every
state of the engine before the call.  The Docker backend never compares the
`uid` label of the container it finds.  Both backends test the mounts of a
destination on one of them only, the first or the last, and the Kubernetes backend
may have deleted a pod before it finds that the pod does not match.

Main results:

- `keeps_iff_meets`: both backends keep identities apart exactly when the
  container or pod that is reused has the user's label and no shadowed mount, and
  no pod is discarded into its grace period.
- `docker_reuses_foreign_user`: one user's ephemeral container returned to another.
-/

namespace Yuanlei.Provisioner

open PosixPath (Text)
open PyText (stripChars)

namespace Docker

variable (config : Config) (probes : Probes) (request : CreateRequest)

/-! ## What a returned Docker record stands for -/

/-- Nothing is mounted at the persistent roots but the workspace and the read only projection of
the user, and nothing at all for an ephemeral sandbox. -/
def Confined (identity : Identity) (mounts : List Mount) : Prop :=
  ∀ mount ∈ mounts, isPersistentSandboxMountPath mount.destinationPath = true →
    identity.ephemeral = false ∧ ((mount.destinationPath = userDataDestination ∧
          mount.sourcePath = config.sharedWorkspaceHostPath identity.uid) ∨
        (mount.destinationPath = skillsDestination ∧
          mount.sourcePath = config.userSkillsHostPath identity.uid ∧ mount.rw = some false))

/-- The container belongs to the request. -/
structure Serves (identity : Identity) (container : Container) : Prop where
  labels : container.labels.identity = identity
  mounts : Confined config identity container.mounts

/-- A returned record is of a container that serves the request, and a call that raises over an
identity leaves the container as it was. -/
structure Keeps (engine : Engine) : Prop where
  returned : ∀ record, (create config probes request engine).1 = .ok record →
    ∃ identity container, request.identity = .ok identity ∧
      (create config probes request engine).2.container = some container ∧
      container.id = record.generation ∧ Serves config identity container
  raised : ∀ message, (create config probes request engine).1 = .error (.mismatch message) →
    (create config probes request engine).2.container = engine.container

/-- The container of the id passes the tests of `create` and is returned. -/
def isReused (engine : Engine) (identity : Identity) (container : Container) : Bool :=
  (identityError identity container.labels).isNone && !isStale config identity container &&
    engine.ensureNetwork.isSome && (healthyRecord config probes container).isSome

/-- Mounts of one persistent destination do not differ. -/
def Unshadowed (mounts : List Mount) : Prop :=
  ∀ mount ∈ mounts, ∀ other ∈ mounts, isPersistentSandboxMountPath mount.destinationPath = true →
    mount.destinationPath = other.destinationPath → mount.sourcePath = other.sourcePath ∧
        (mount.destinationPath = skillsDestination → (mount.rw = some false ↔ other.rw = some false))

/-- The container that is reused has the user's label and no shadowed mount. -/
def Meets (engine : Engine) : Prop :=
  ∀ identity container, request.identity = .ok identity → engine.container = some container →
    isReused config probes engine identity container = true →
      container.labels.text "uid" = identity.uid ∧ Unshadowed container.mounts

/-! ## The mount tests -/

variable {config} {probes} {request} {identity : Identity}

variable {mounts : List Mount}

theorem exists_of_isExpectedSkillsMount {uid : Text}
    (h : isExpectedSkillsMount config mounts uid = true) :
    ∃ mount ∈ mounts, mount.destinationPath = skillsDestination ∧
      mount.sourcePath = config.userSkillsHostPath uid ∧ mount.rw = some false := by
  unfold isExpectedSkillsMount at h
  split at h
  · rename_i mount hfind
    have hboth := (Bool.and_eq_true _ _).mp h
    have hdestination := List.find?_some hfind
    exact ⟨mount, List.mem_of_find?_eq_some hfind, beq_iff_eq.mp hdestination,
      beq_iff_eq.mp hboth.1, beq_iff_eq.mp hboth.2⟩
  · cases h

theorem exists_of_lastSource {destination source : Text}
    (h : lastSource mounts destination = some source) :
    ∃ mount ∈ mounts, mount.destinationPath = destination ∧ mount.sourcePath = source := by
  unfold lastSource at h
  obtain ⟨mount, hfind, hsource⟩ := Option.map_eq_some_iff.mp h
  have hdestination := List.find?_some hfind
  exact ⟨mount, List.mem_reverse.mp (List.mem_of_find?_eq_some hfind), beq_iff_eq.mp hdestination,
    hsource⟩

variable (config) in
theorem confined_of_hasNoPersistentFileMounts (h : hasNoPersistentFileMounts mounts = true) :
    Confined config identity mounts ∧ Unshadowed mounts := by
  have hnone : ∀ mount ∈ mounts, isPersistentSandboxMountPath mount.destinationPath = true →
      False := by
    intro mount hmem hpersistent
    have htest := List.all_eq_true.mp h mount hmem
    rw [hpersistent] at htest
    cases htest
  exact ⟨fun mount hmem hpersistent => (hnone mount hmem hpersistent).elim,
    fun mount hmem _ _ hpersistent => (hnone mount hmem hpersistent).elim⟩

theorem confined_iff_unshadowed (hpersistent : identity.ephemeral = false)
    (hskills : isExpectedSkillsMount config mounts identity.uid = true)
    (huserData : hasExpectedUserDataMounts config mounts identity.uid = true) :
    Confined config identity mounts ↔ Unshadowed mounts := by
  obtain ⟨skills, hskillsMem, hskillsDest, hskillsSource, hskillsRw⟩ :=
    exists_of_isExpectedSkillsMount hskills
  have hboth := (Bool.and_eq_true _ _).mp huserData
  obtain ⟨userData, huserMem, huserDest, huserSource⟩ :=
    exists_of_lastSource (beq_iff_eq.mp hboth.1)
  have hallowed := List.all_eq_true.mp hboth.2
  constructor
  · intro hconfined mount hmem other hother hroot hsame
    have hrootOther : isPersistentSandboxMountPath other.destinationPath = true := hsame ▸ hroot
    rcases (hconfined mount hmem hroot).2 with ⟨hdest, hsource⟩ | ⟨hdest, hsource, hrw⟩
    · rcases (hconfined other hother hrootOther).2 with ⟨hdest', hsource'⟩ | ⟨hdest', -, -⟩
      · refine ⟨hsource.trans hsource'.symm, fun hskill => ?_⟩
        exact absurd (hskill.symm.trans hdest) skills_ne_userData
      · exact absurd (hdest'.symm.trans (hsame.symm.trans hdest)) skills_ne_userData
    · rcases (hconfined other hother hrootOther).2 with ⟨hdest', -⟩ | ⟨-, hsource', hrw'⟩
      · exact absurd (hdest.symm.trans (hsame.trans hdest')) skills_ne_userData
      · exact ⟨hsource.trans hsource'.symm, fun _ => ⟨fun _ => hrw', fun _ => hrw⟩⟩
  · intro hunshadowed mount hmem hroot
    refine ⟨hpersistent, ?_⟩
    have hdestination := hallowed mount hmem
    rw [hroot] at hdestination
    have hcases : mount.destinationPath = userDataDestination ∨
        mount.destinationPath = skillsDestination := by
      simpa using hdestination
    rcases hcases with hdest | hdest
    · left
      exact ⟨hdest, (hunshadowed mount hmem userData huserMem hroot (hdest.trans huserDest.symm)).1.trans
        huserSource⟩
    · right
      obtain ⟨hsource, hrw⟩ :=
        hunshadowed mount hmem skills hskillsMem hroot (hdest.trans hskillsDest.symm)
      exact ⟨hdest, hsource.trans hskillsSource, (hrw hdest).mpr hskillsRw⟩

variable {container : Container}

theorem tests_of_not_isStale (h : isStale config identity container = false) :
    (identity.ephemeral = true → hasNoPersistentFileMounts container.mounts = true) ∧
      (identity.ephemeral = false →
        isExpectedSkillsMount config container.mounts identity.uid = true ∧
          hasExpectedUserDataMounts config container.mounts identity.uid = true) := by
  unfold isStale at h
  simp only [Bool.or_eq_false_iff] at h
  obtain ⟨⟨⟨hephemeral, hskills⟩, -⟩, huserData⟩ := h
  constructor
  · intro hmode
    rw [hmode] at hephemeral
    simpa using hephemeral
  · intro hmode
    rw [hmode] at hskills huserData
    exact ⟨by simpa using hskills, by simpa using huserData⟩

theorem identity_of_identityError {labels : Labels} (h : identityError identity labels = none)
    (huid : labels.text "uid" = identity.uid) : labels.identity = identity := by
  unfold identityError at h
  split_ifs at h with hthread hworkdir hstorage
  unfold Labels.identity
  rw [not_not.mp hthread, huid, not_not.mp hworkdir, not_not.mp hstorage]

theorem serves_iff (herror : identityError identity container.labels = none)
    (hstale : isStale config identity container = false) :
    Serves config identity container ↔
      container.labels.text "uid" = identity.uid ∧ Unshadowed container.mounts := by
  obtain ⟨hephemeral, hpersistent⟩ := tests_of_not_isStale hstale
  have hmounts : Confined config identity container.mounts ↔ Unshadowed container.mounts := by
    cases hmode : identity.ephemeral with
    | true =>
      obtain ⟨hconfined, hunshadowed⟩ :=
        confined_of_hasNoPersistentFileMounts config (hephemeral hmode)
      exact ⟨fun _ => hunshadowed, fun _ => hconfined⟩
    | false => exact confined_iff_unshadowed hmode (hpersistent hmode).1 (hpersistent hmode).2
  constructor
  · intro hserves
    exact ⟨congrArg Identity.uid hserves.labels, hmounts.mp hserves.mounts⟩
  · rintro ⟨huid, hunshadowed⟩
    exact ⟨identity_of_identityError herror huid, hmounts.mpr hunshadowed⟩

/-! ## A new container -/

theorem rstripSlashes_userData : Workspace.rstripSlashes userDataDestination = userDataDestination := by
  decide

theorem rstripSlashes_skills : Workspace.rstripSlashes skillsDestination = skillsDestination := by
  decide

theorem serves_newContainer (hvalid : identity.Valid) (id : Nat) :
    Serves config identity (newContainer config identity request id) where
  labels := identity_newLabels hvalid request
  mounts := by
    intro mount hmem hroot
    obtain ⟨hpersistent, hmount⟩ := mem_newMounts hmem
    refine ⟨hpersistent, ?_⟩
    unfold Mount.destinationPath Mount.sourcePath
    rcases hmount with ⟨hdest, hsource⟩ | ⟨hdest, hsource, hrw⟩
    · left
      rw [hdest, hsource]
      exact ⟨rstripSlashes_userData, rstripSlashes_sharedWorkspace config identity.uid⟩
    · right
      rw [hdest, hsource]
      exact ⟨rstripSlashes_skills, rstripSlashes_userSkills config hvalid.uid.1 hvalid.uid.2.2, hrw⟩

/-! ## create -/

variable (config probes request) in
/-- What starting a container can come to. -/
theorem run_cases (hvalid : identity.Valid) (engine : Engine) :
    (∃ record container, (run config probes request identity engine).1 = .ok record ∧
        (run config probes request identity engine).2.container = some container ∧
        container.id = record.generation ∧ Serves config identity container) ∨
      ∃ error, (run config probes request identity engine).1 = .error error ∧
        ∀ message, error ≠ .mismatch message := by
  unfold run
  split
  · right
    exact ⟨_, rfl, by simp⟩
  · split
    · right
      exact ⟨_, rfl, by simp [ownershipError]⟩
    · simp only
      split
      · rename_i record hrecord
        split
        · left
          exact ⟨record, _, rfl, rfl, (generation_of_recordOf hrecord).symm,
            serves_newContainer hvalid _⟩
        · right
          exact ⟨_, rfl, by simp [notReadyError]⟩
      · right
        exact ⟨_, rfl, by simp [intError]⟩

variable {engine engine' : Engine}

theorem ensureNetwork_container (h : engine.ensureNetwork = some engine') :
    engine'.container = engine.container := by
  unfold Engine.ensureNetwork at h
  split at h
  · cases h
    rfl
  · split at h
    · cases h
      rfl
    · cases h

variable (config probes request) in
/-- What `create` does to a container whose identity does not differ: it starts a new one, it
raises over the network, or it returns the container. -/
theorem reuse_cases (hcontainer : engine.container = some container)
    (herror : identityError identity container.labels = none) :
    (isReused config probes engine identity container = false ∧
        ((∃ engine' : Engine, reuse config probes request identity engine container =
            run config probes request identity engine') ∨
          reuse config probes request identity engine container =
            (.error (ownershipError config), engine))) ∨
      (isReused config probes engine identity container = true ∧
        isStale config identity container = false ∧
          ∃ record engine', reuse config probes request identity engine container =
              (.ok record, engine') ∧
            engine'.container = some container ∧ record.generation = container.id) := by
  unfold reuse
  by_cases hstale : isStale config identity container = true
  · left
    rw [if_pos hstale]
    exact ⟨by simp [isReused, hstale], .inl ⟨engine.delete, rfl⟩⟩
  · rw [if_neg hstale]
    cases hnetwork : engine.ensureNetwork with
    | none =>
      left
      exact ⟨by simp [isReused, hnetwork], .inr rfl⟩
    | some engine' =>
      cases hhealthy : healthyRecord config probes container with
      | none =>
        left
        exact ⟨by simp [isReused, hhealthy], .inl ⟨engine'.delete, rfl⟩⟩
      | some record =>
        right
        have hrecord : toRecord config container = some record := by
          unfold healthyRecord at hhealthy
          split at hhealthy
          · exact hhealthy
          · cases hhealthy
        refine ⟨by simp [isReused, herror, hstale, hnetwork, hhealthy], by simpa using hstale,
          record, engine', rfl, ?_, generation_of_recordOf hrecord⟩
        rw [ensureNetwork_container hnetwork]
        exact hcontainer

theorem keeps_of_run (hidentity : request.identity = .ok identity)
    (hcreate : create config probes request engine = run config probes request identity engine') :
    Keeps config probes request engine := by
  rcases run_cases config probes request (identity_valid hidentity) engine' with
    ⟨record, container, hok, hcontainer, hid, hserves⟩ | ⟨error, herror, hnot⟩
  · constructor
    · intro record' hrecord'
      rw [hcreate, hok] at hrecord'
      cases hrecord'
      exact ⟨identity, container, hidentity, by rw [hcreate, hcontainer], hid, hserves⟩
    · intro message hmessage
      rw [hcreate, hok] at hmessage
      cases hmessage
  · constructor
    · intro record' hrecord'
      rw [hcreate, herror] at hrecord'
      cases hrecord'
    · intro message hmessage
      rw [hcreate, herror, Except.error.injEq] at hmessage
      exact absurd hmessage (hnot message)

theorem keeps_of_error {error : CreateError}
    (hcreate : create config probes request engine = (.error error, engine'))
    (hcontainer : engine'.container = engine.container) : Keeps config probes request engine where
  returned record hrecord := by
    rw [hcreate] at hrecord
    cases hrecord
  raised message hmessage := by
    rw [hcreate]
    exact hcontainer

/-- The Docker backend keeps identities apart exactly when the container it reuses has the user's
label and no shadowed mount. -/
theorem docker_keeps_iff (config : Config) (probes : Probes) (request : CreateRequest)
    (engine : Engine) :
    Keeps config probes request engine ↔ Meets config probes request engine := by
  cases hidentity : request.identity with
  | error e =>
    have hcreate : create config probes request engine = (.error e, engine) := by
      simp only [create, hidentity]
    exact ⟨fun _ => by simp [Meets, hidentity], fun _ => keeps_of_error hcreate rfl⟩
  | ok identity =>
    cases hcontainer : engine.container with
    | none =>
      have hcreate : create config probes request engine =
          run config probes request identity engine := by
        simp only [create, hidentity, hcontainer]
      exact ⟨fun _ => by simp [Meets, hcontainer], fun _ => keeps_of_run hidentity hcreate⟩
    | some container =>
      have hmeets : Meets config probes request engine ↔
          (isReused config probes engine identity container = true →
            container.labels.text "uid" = identity.uid ∧ Unshadowed container.mounts) := by
        simp [Meets, hidentity, hcontainer]
      rw [hmeets]
      cases herror : identityError identity container.labels with
      | some message =>
        have hcreate : create config probes request engine = (.error (.mismatch message), engine) := by
          simp only [create, hidentity, hcontainer, herror]
        exact ⟨fun _ hreused => by simp [isReused, herror] at hreused,
          fun _ => keeps_of_error hcreate rfl⟩
      | none =>
        have hcreate : create config probes request engine =
            reuse config probes request identity engine container := by
          simp only [create, hidentity, hcontainer, herror]
        rcases reuse_cases config probes request hcontainer
          herror with ⟨hnot, hrun⟩ | ⟨hreused, hstale, record, engine', hreuse, hsame, hid⟩
        · refine ⟨fun _ hreused => by simp [hnot] at hreused, fun _ => ?_⟩
          rcases hrun with ⟨engine', hrun⟩ | hrun
          · exact keeps_of_run hidentity (hcreate.trans hrun)
          · exact keeps_of_error (hcreate.trans hrun) rfl
        · have hresult := hcreate.trans hreuse
          constructor
          · intro hkeeps _
            obtain ⟨identity', container', hok, hcontainer', -, hserves⟩ :=
              hkeeps.returned record (by rw [hresult])
            rw [hidentity] at hok
            cases hok
            rw [hresult, hsame] at hcontainer'
            cases hcontainer'
            exact (serves_iff herror hstale).mp hserves
          · intro hmeets
            constructor
            · intro record' hrecord'
              rw [hresult] at hrecord'
              cases hrecord'
              exact ⟨identity, container, hidentity, by rw [hresult, hsame], hid.symm,
                (serves_iff herror hstale).mpr (hmeets hreused)⟩
            · intro message hmessage
              rw [hresult] at hmessage
              cases hmessage

end Docker

namespace Kubernetes

variable (config : Config) (probes : Probes) (request : CreateRequest)

/-! ## What a returned Kubernetes record stands for -/

/-- Nothing is mounted at the persistent roots but the workspace and the read only projection of
the user, and nothing at all for an ephemeral sandbox. -/
def Confined (identity : Identity) (volumes : Table Text Text) (mounts : List VolumeMount) : Prop :=
  ∀ mount ∈ mounts, isPersistentSandboxMountPath mount.destinationPath = true →
    identity.ephemeral = false ∧ ((mount.destinationPath = userDataDestination ∧
          volumes.get mount.name = some config.userDataPvc ∧
          mount.subPath = workspaceSubPath identity.uid) ∨
        (mount.destinationPath = skillsDestination ∧ volumes.get mount.name = some config.skillPvc ∧
          mount.subPath = skillsSubPath identity.uid ∧ mount.readOnly = true))

/-- The pod belongs to the request. -/
structure Serves (identity : Identity) (pod : Pod) : Prop where
  annotations : pod.annotations.identity = identity
  mounts : ∃ mounts, pod.sandboxMounts = some mounts ∧ Confined config identity pod.volumes mounts

/-- A returned record is of a pod that serves the request, and a call that raises over an identity
leaves the pod as it was. -/
structure Keeps (cluster : Cluster) : Prop where
  returned : ∀ record, (create config probes request cluster).1 = .ok record →
    ∃ identity pod, request.identity = .ok identity ∧
      (create config probes request cluster).2.pod = some pod ∧
      pod.uid = record.generation ∧ Serves config identity pod
  raised : ∀ message, (create config probes request cluster).1 = .error (.mismatch message) →
    (create config probes request cluster).2.pod = cluster.pod

/-- The record that is read from a pod of the identity. -/
def podRecord (identity : Identity) (pod : Pod) : Option Record :=
  recordOf config.digits pod.uid identity.workdirPath pod.annotations

/-- The pod of the id passes the tests of `create` and is returned. -/
def isAdopted (cluster : Cluster) (identity : Identity) (pod : Pod) : Bool :=
  matchesRequest config identity pod && (podRecord config identity pod).isSome &&
    (cluster.service.isSome || probes.ready)

/-- Mounts of one persistent destination do not differ. -/
def Unshadowed (volumes : Table Text Text) (mounts : List VolumeMount) : Prop :=
  ∀ mount ∈ mounts, ∀ other ∈ mounts, isPersistentSandboxMountPath mount.destinationPath = true →
    mount.destinationPath = other.destinationPath →
      volumes.get mount.name = volumes.get other.name ∧ mount.subPath = other.subPath ∧
        (mount.destinationPath = skillsDestination → mount.readOnly = other.readOnly)

/-- The pod that is returned has no shadowed mount, and a pod that is discarded is gone at once or
was already in its grace period. -/
structure Meets (cluster : Cluster) : Prop where
  adopted : ∀ identity pod mounts, request.identity = .ok identity → cluster.pod = some pod →
    isAdopted config probes cluster identity pod = true → pod.sandboxMounts = some mounts →
      Unshadowed pod.volumes mounts
  discarded : ∀ identity pod, request.identity = .ok identity → cluster.pod = some pod →
    cluster.service.isSome = true → inspect config pod = .discarded → probes.graceful = true →
      pod.terminating = true

/-! ## The mount tests -/

variable {config} {probes} {request} {identity : Identity}

variable {mounts : List VolumeMount} {destination : Text}

theorem lastMount_spec {mount : VolumeMount} (h : lastMount mounts destination = some mount) :
    mount ∈ mounts ∧ mount.destinationPath = destination := by
  have hdestination := List.find?_some h
  exact ⟨List.mem_reverse.mp (List.mem_of_find?_eq_some h), beq_iff_eq.mp hdestination⟩

theorem exists_of_mountsVolume {volume subPath : Text}
    (h : mountsVolume mounts destination volume subPath = true) :
    ∃ mount, lastMount mounts destination = some mount ∧ mount.name = volume ∧
      mount.subPath = subPath := by
  obtain ⟨mount, hlast, htest⟩ := (Option.any_eq_true _ _).mp h
  have hboth := (Bool.and_eq_true _ _).mp htest
  exact ⟨mount, hlast, beq_iff_eq.mp hboth.1, beq_iff_eq.mp hboth.2⟩

/-- Mounts that pass the tests of a persistent sandbox are confined when none is shadowed. -/
theorem confined_iff_unshadowed {volumes : Table Text Text}
    (hpersistent : identity.ephemeral = false)
    (hclaim : volumes.get userDataVolume = some config.userDataPvc)
    (hskillsClaim : volumes.get skillsVolume = some config.skillPvc)
    (htests : hasPersistentMounts mounts identity.uid = true) :
    Confined config identity volumes mounts ↔ Unshadowed volumes mounts := by
  unfold hasPersistentMounts at htests
  simp only [Bool.and_eq_true] at htests
  obtain ⟨⟨⟨huserTest, hskillsTest⟩, hreadOnly⟩, hallowed⟩ := htests
  obtain ⟨userData, huserLast, huserName, huserSub⟩ := exists_of_mountsVolume huserTest
  obtain ⟨skills, hskillsLast, hskillsName, hskillsSub⟩ := exists_of_mountsVolume hskillsTest
  obtain ⟨huserMem, huserDest⟩ := lastMount_spec huserLast
  obtain ⟨hskillsMem, hskillsDest⟩ := lastMount_spec hskillsLast
  have hskillsReadOnly : skills.readOnly = true := by
    rw [hskillsLast] at hreadOnly
    simpa using hreadOnly
  have hallowed' := List.all_eq_true.mp hallowed
  constructor
  · intro hconfined mount hmem other hother hroot hsame
    have hrootOther : isPersistentSandboxMountPath other.destinationPath = true := hsame ▸ hroot
    rcases (hconfined mount hmem hroot).2 with ⟨hdest, hvolume, hsub⟩ | ⟨hdest, hvolume, hsub, hro⟩
    · rcases (hconfined other hother hrootOther).2 with ⟨-, hvolume', hsub'⟩ | ⟨hdest', -⟩
      · refine ⟨hvolume.trans hvolume'.symm, hsub.trans hsub'.symm, fun hskill => ?_⟩
        exact absurd (hskill.symm.trans hdest) skills_ne_userData
      · exact absurd (hdest'.symm.trans (hsame.symm.trans hdest)) skills_ne_userData
    · rcases (hconfined other hother hrootOther).2 with ⟨hdest', -⟩ | ⟨-, hvolume', hsub', hro'⟩
      · exact absurd (hdest.symm.trans (hsame.trans hdest')) skills_ne_userData
      · exact ⟨hvolume.trans hvolume'.symm, hsub.trans hsub'.symm, fun _ => hro.trans hro'.symm⟩
  · intro hunshadowed mount hmem hroot
    refine ⟨hpersistent, ?_⟩
    have hdestination := hallowed' mount hmem
    rw [hroot] at hdestination
    have hcases : mount.destinationPath = userDataDestination ∨
        mount.destinationPath = skillsDestination := by
      simpa using hdestination
    rcases hcases with hdest | hdest
    · obtain ⟨hvolume, hsub, -⟩ :=
        hunshadowed mount hmem userData huserMem hroot (hdest.trans huserDest.symm)
      rw [huserName, hclaim] at hvolume
      exact .inl ⟨hdest, hvolume, hsub.trans huserSub⟩
    · obtain ⟨hvolume, hsub, hro⟩ :=
        hunshadowed mount hmem skills hskillsMem hroot (hdest.trans hskillsDest.symm)
      rw [hskillsName, hskillsClaim] at hvolume
      exact .inr ⟨hdest, hvolume, hsub.trans hskillsSub, (hro hdest).trans hskillsReadOnly⟩

variable {pod : Pod}

theorem serves_iff (h : matchesRequest config identity pod = true) :
    Serves config identity pod ↔
      ∀ mounts, pod.sandboxMounts = some mounts → Unshadowed pod.volumes mounts := by
  obtain ⟨hannotations, hexpected⟩ := matchesRequest_spec h
  unfold podHasExpectedMounts at hexpected
  have hmounts : ∃ mounts, pod.sandboxMounts = some mounts ∧
      (Confined config identity pod.volumes mounts ↔ Unshadowed pod.volumes mounts) := by
    cases hmode : identity.ephemeral with
    | true =>
      rw [hmode, if_pos rfl] at hexpected
      obtain ⟨mounts, hsome, htest⟩ := (Option.any_eq_true _ _).mp hexpected
      have hnone : ∀ mount ∈ mounts,
          isPersistentSandboxMountPath mount.destinationPath = true → False := by
        intro mount hmem hroot
        have hfree := List.all_eq_true.mp htest mount hmem
        rw [hroot] at hfree
        cases hfree
      exact ⟨mounts, hsome, fun _ mount hmem _ _ hroot => (hnone mount hmem hroot).elim,
        fun _ mount hmem hroot => (hnone mount hmem hroot).elim⟩
    | false =>
      rw [hmode, if_neg Bool.false_ne_true] at hexpected
      simp only [Bool.and_eq_true, beq_iff_eq] at hexpected
      obtain ⟨⟨hclaim, hskillsClaim⟩, hany⟩ := hexpected
      obtain ⟨mounts, hsome, htest⟩ := (Option.any_eq_true _ _).mp hany
      exact ⟨mounts, hsome, confined_iff_unshadowed hmode hclaim hskillsClaim htest⟩
  obtain ⟨mounts, hsome, hiff⟩ := hmounts
  constructor
  · intro hserves mounts' hsome'
    obtain ⟨mounts'', hsome'', hconfined⟩ := hserves.mounts
    cases hsome.symm.trans hsome'
    cases hsome.symm.trans hsome''
    exact hiff.mp hconfined
  · intro hunshadowed
    exact ⟨hannotations, mounts, hsome, hiff.mpr (hunshadowed mounts hsome)⟩

/-! ## A new pod -/

section NewPod

variable (uid : Text)

/-- The three mounts of a new pod that keeps its files. -/
def homeMount : VolumeMount :=
  ⟨"home-dir".toList, "/home/gem".toList, [], false⟩

def userDataMount : VolumeMount :=
  ⟨userDataVolume, userDataDestination, workspaceSubPath uid, false⟩

def skillsMount : VolumeMount :=
  ⟨skillsVolume, skillsDestination, skillsSubPath uid, true⟩

theorem destinationPath_userDataMount : (userDataMount uid).destinationPath = userDataDestination :=
  Docker.rstripSlashes_userData

theorem destinationPath_skillsMount : (skillsMount uid).destinationPath = skillsDestination :=
  Docker.rstripSlashes_skills

theorem isPersistent_homeMount : isPersistentSandboxMountPath homeMount.destinationPath = false := by
  decide

theorem lastMount_new :
    lastMount [homeMount, userDataMount uid, skillsMount uid] userDataDestination =
        some (userDataMount uid) ∧
      lastMount [homeMount, userDataMount uid, skillsMount uid] skillsDestination =
        some (skillsMount uid) := by
  have hreverse : [homeMount, userDataMount uid, skillsMount uid].reverse =
      [skillsMount uid, userDataMount uid, homeMount] := rfl
  unfold lastMount
  rw [hreverse]
  constructor
  · rw [List.find?_cons_of_neg, List.find?_cons_of_pos]
    · exact beq_self_eq_true _
    · rw [destinationPath_skillsMount]
      simpa using skills_ne_userData
  · rw [List.find?_cons_of_pos]
    exact beq_self_eq_true _

theorem hasPersistentMounts_new :
    hasPersistentMounts [homeMount, userDataMount uid, skillsMount uid] uid = true := by
  obtain ⟨huserData, hskills⟩ := lastMount_new uid
  unfold hasPersistentMounts mountsVolume
  rw [huserData, hskills]
  have hall : [homeMount, userDataMount uid, skillsMount uid].all (fun mount =>
      !isPersistentSandboxMountPath mount.destinationPath ||
        [userDataDestination, skillsDestination].contains mount.destinationPath) = true := by
    apply List.all_eq_true.mpr
    intro mount hmem
    simp only [List.mem_cons, List.not_mem_nil, or_false] at hmem
    rcases hmem with rfl | rfl | rfl
    · rw [isPersistent_homeMount]
      rfl
    · rw [destinationPath_userDataMount]
      decide
    · rw [destinationPath_skillsMount]
      decide
  rw [hall]
  simp [userDataMount, skillsMount]

end NewPod

theorem newVolumeMounts_persistent (hpersistent : identity.ephemeral = false) :
    newVolumeMounts identity =
      [homeMount, userDataMount identity.uid, skillsMount identity.uid] := by
  unfold newVolumeMounts
  rw [hpersistent]
  rfl

theorem newVolumeMounts_ephemeral (hephemeral : identity.ephemeral = true) :
    newVolumeMounts identity = [homeMount] := by
  unfold newVolumeMounts
  rw [hephemeral]
  rfl

theorem sandboxMounts_newPod (uid : Nat) :
    (newPod config identity request uid).sandboxMounts = some (newVolumeMounts identity) := by
  unfold Pod.sandboxMounts newPod
  simp only [List.find?_cons, beq_self_eq_true, Option.map_some]

variable (config request) in
theorem volumes_newPod (hpersistent : identity.ephemeral = false) (uid : Nat) :
    (newPod config identity request uid).volumes.get userDataVolume = some config.userDataPvc ∧
      (newPod config identity request uid).volumes.get skillsVolume = some config.skillPvc := by
  have hhome : userDataVolume ≠ "home-dir".toList ∧ skillsVolume ≠ "home-dir".toList ∧
      userDataVolume ≠ skillsVolume := by
    decide
  simp only [newPod, hpersistent, Bool.false_eq_true, if_false, Table.get_upsert, if_neg hhome.1,
    if_neg hhome.2.1, if_neg hhome.2.2, if_true]
  exact ⟨trivial, trivial⟩

theorem matchesRequest_newPod (hvalid : identity.Valid) (uid : Nat) :
    matchesRequest config identity (newPod config identity request uid) = true := by
  apply (Bool.and_eq_true _ _).mpr
  constructor
  · exact beq_iff_eq.mpr (identity_newLabels hvalid request)
  · unfold podHasExpectedMounts
    rw [sandboxMounts_newPod]
    cases hmode : identity.ephemeral with
    | true =>
      rw [if_pos rfl, newVolumeMounts_ephemeral hmode]
      simp [isPersistent_homeMount]
    | false =>
      obtain ⟨hclaim, hskillsClaim⟩ := volumes_newPod config request hmode uid
      rw [if_neg Bool.false_ne_true, newVolumeMounts_persistent hmode, hclaim, hskillsClaim]
      simp [hasPersistentMounts_new]

theorem unshadowed_newPod (uid : Nat) (mounts : List VolumeMount)
    (h : (newPod config identity request uid).sandboxMounts = some mounts) :
    Unshadowed (newPod config identity request uid).volumes mounts := by
  cases h
  cases hmode : identity.ephemeral with
  | true =>
    rw [newVolumeMounts_ephemeral hmode]
    intro mount hmem other hother hroot
    rw [List.mem_singleton.mp hmem, isPersistent_homeMount] at hroot
    cases hroot
  | false =>
    rw [newVolumeMounts_persistent hmode]
    intro mount hmem other hother hroot hsame
    have hmount : mount = userDataMount identity.uid ∨ mount = skillsMount identity.uid := by
      rcases List.mem_cons.mp hmem with rfl | hrest
      · cases hroot
      · simpa using hrest
    have hother' : other = userDataMount identity.uid ∨ other = skillsMount identity.uid := by
      rcases List.mem_cons.mp hother with rfl | hrest
      · rw [hsame, isPersistent_homeMount] at hroot
        cases hroot
      · simpa using hrest
    rcases hmount with rfl | rfl <;> rcases hother' with rfl | rfl
    · exact ⟨rfl, rfl, fun _ => rfl⟩
    · exact absurd hsame.symm skills_ne_userData
    · rw [destinationPath_userDataMount, destinationPath_skillsMount] at hsame
      exact absurd hsame skills_ne_userData
    · exact ⟨rfl, rfl, fun _ => rfl⟩

/-! ## Discovery -/

theorem inspect_of_matches (hvalid : identity.Valid) (h : matchesRequest config identity pod = true) :
    inspect config pod =
      match podRecord config identity pod with
      | some record => .record record
      | none => .invalid (intError pod.annotations) := by
  obtain ⟨hannotations, hexpected⟩ := matchesRequest_spec h
  unfold inspect
  simp only [hannotations]
  rw [if_neg (by simp [hvalid.threadId.2.2, hvalid.uid.2.2]), hvalid.threadId.1, hvalid.uid.1,
    hvalid.workdirPath.1]
  cases hrecord : recordOf config.digits pod.uid identity.workdirPath pod.annotations with
  | none => simp only [hexpected, if_true, podRecord, hrecord]
  | some record => simp only [hexpected, if_true, podRecord, hrecord]

theorem not_matches_of_discarded (hvalid : identity.Valid) (h : inspect config pod = .discarded) : matchesRequest config identity pod = false := by
  by_contra hmatches
  rw [inspect_of_matches hvalid (by simpa using hmatches)] at h
  split at h <;> cases h

theorem not_matches_of_unknown (hvalid : identity.Valid) (h : inspect config pod = .unknown) : matchesRequest config identity pod = false := by
  by_contra hmatches
  rw [inspect_of_matches hvalid (by simpa using hmatches)] at h
  split at h <;> cases h

/-! ## create -/

variable (probes) in
theorem confirm_of_matches (hvalid : identity.Valid) {cluster : Cluster}
    (hpod : cluster.pod = some pod) (hservice : cluster.service.isSome = true)
    (h : matchesRequest config identity pod = true) :
    (∃ record, confirm config probes identity cluster = (.ok record, cluster) ∧
        record.generation = pod.uid ∧ (podRecord config identity pod).isSome = true ∧
          probes.ready = true) ∨
      ((podRecord config identity pod).isSome && probes.ready) = false ∧
        ∃ error cluster', confirm config probes identity cluster = (.error error, cluster') ∧
          ∀ message, error ≠ .mismatch message := by
  obtain ⟨service, hsome⟩ := Option.isSome_iff_exists.mp hservice
  have hinspect := inspect_of_matches hvalid h
  cases hrecord : podRecord config identity pod with
  | none =>
    right
    rw [hrecord] at hinspect
    refine ⟨rfl, intError pod.annotations, cluster, ?_, by simp [intError]⟩
    simp only [confirm, discover, hpod, hsome, hinspect]
  | some record =>
    rw [hrecord] at hinspect
    have hany : cluster.pod.any (matchesRequest config identity) = true := by
      rw [hpod]
      exact h
    have hdiscover : discover config probes cluster = (.ok (some record), cluster) := by
      simp only [discover, hpod, hsome, hinspect]
    cases hready : probes.ready with
    | true =>
      left
      refine ⟨record, ?_, generation_of_recordOf hrecord, rfl, rfl⟩
      simp only [confirm, hdiscover, hany, hready, if_true]
    | false =>
      right
      refine ⟨rfl, notReadyError config, cluster.delete probes.graceful, ?_,
        by simp [notReadyError]⟩
      simp only [confirm, hdiscover, hany, hready, if_true, Bool.false_eq_true, if_false]

variable (probes) in
theorem createService_spec (cluster : Cluster) : (createService probes cluster).pod = cluster.pod ∧
      (createService probes cluster).service.isSome = true := by
  unfold createService
  split
  · rename_i service hservice
    exact ⟨rfl, by rw [hservice]; rfl⟩
  · exact ⟨rfl, rfl⟩

variable (config probes request) in
/-- Behind a discovery that found nothing, on a cluster without a pod. -/
theorem provision_of_none (hvalid : identity.Valid) {cluster : Cluster} (hpod : cluster.pod = none) :
    (∃ record cluster' pod, provision config probes request identity cluster = (.ok record, cluster') ∧
        cluster'.pod = some pod ∧ pod.uid = record.generation ∧ Serves config identity pod) ∨
      ∃ error cluster', provision config probes request identity cluster = (.error error, cluster') ∧
        ∀ message, error ≠ .mismatch message := by
  have hcreate : createPod config request identity cluster = some { cluster with
      pod := some (newPod config identity request cluster.nextUid)
      nextUid := cluster.nextUid + 1 } := by
    simp only [createPod, hpod]
  obtain ⟨hsame, hservice⟩ := createService_spec probes { cluster with
      pod := some (newPod config identity request cluster.nextUid)
      nextUid := cluster.nextUid + 1 }
  have hmatches : matchesRequest config identity
      (newPod config identity request cluster.nextUid) = true := matchesRequest_newPod hvalid _
  unfold provision
  rw [hcreate]
  rcases confirm_of_matches probes hvalid hsame hservice hmatches with
    ⟨record, hconfirm, hid, -⟩ | ⟨-, error, cluster', hconfirm, hnot⟩
  · left
    exact ⟨record, _, _, hconfirm, hsame, hid.symm,
      (serves_iff hmatches).mpr (unshadowed_newPod cluster.nextUid)⟩
  · right
    exact ⟨error, cluster', hconfirm, hnot⟩

variable {cluster' : Cluster}

theorem keeps_of_ok {cluster : Cluster} {record : Record}
    (hidentity : request.identity = .ok identity)
    (hcreate : create config probes request cluster = (.ok record, cluster'))
    (hpod : cluster'.pod = some pod) (hid : pod.uid = record.generation) :
    Keeps config probes request cluster ↔ Serves config identity pod := by
  constructor
  · intro hkeeps
    obtain ⟨identity', pod', hidentity', hpod', -, hserves⟩ :=
      hkeeps.returned record (by rw [hcreate])
    rw [hidentity] at hidentity'
    cases hidentity'
    rw [hcreate, hpod] at hpod'
    cases hpod'
    exact hserves
  · intro hserves
    constructor
    · intro record' hrecord'
      rw [hcreate] at hrecord'
      cases hrecord'
      exact ⟨identity, pod, hidentity, by rw [hcreate, hpod], hid, hserves⟩
    · intro message hmessage
      rw [hcreate] at hmessage
      cases hmessage

/-- A call that raises keeps identities apart unless it raises over one and has changed the pod. -/
theorem keeps_of_error {cluster : Cluster} {error : CreateError}
    (hcreate : create config probes request cluster = (.error error, cluster'))
    (hsame : (∃ message, error = .mismatch message) → cluster'.pod = cluster.pod) :
    Keeps config probes request cluster where
  returned record hrecord := by
    rw [hcreate] at hrecord
    cases hrecord
  raised message hmessage := by
    rw [hcreate] at hmessage ⊢
    exact hsame ⟨message, Except.error.inj hmessage⟩

theorem keeps_of_provision {cluster : Cluster} (hidentity : request.identity = .ok identity)
    (hgone : cluster'.pod = none) (hcreate : create config probes request cluster =
      provision config probes request identity cluster') : Keeps config probes request cluster := by
  rcases provision_of_none config probes request (identity_valid hidentity) hgone
    with ⟨record, next, pod, hprovision, hpod, hid, hserves⟩ | ⟨error, next, hprovision, hnot⟩
  · exact (keeps_of_ok hidentity (hcreate.trans hprovision) hpod hid).mpr hserves
  · exact keeps_of_error (hcreate.trans hprovision) fun ⟨message, hmessage⟩ =>
      absurd hmessage (hnot message)

theorem delete_graceful {cluster : Cluster} (hpod : cluster.pod = some pod) :
    (cluster.delete true).pod = some { pod with terminating := true } := by
  simp [Cluster.delete, hpod]

variable (config probes) in
/-- What the first discovery tells `create`. -/
theorem discover_cases {cluster : Cluster} (hpod : cluster.pod = some pod) :
    (cluster.service = none ∧ discover config probes cluster = (.ok none, cluster)) ∨
      cluster.service.isSome = true ∧
        ((inspect config pod = .unknown ∧ discover config probes cluster = (.ok none, cluster)) ∨
          (∃ e, inspect config pod = .invalid e ∧
            discover config probes cluster = (.error e, cluster)) ∨
          (inspect config pod = .discarded ∧
            discover config probes cluster = (.ok none, cluster.delete probes.graceful)) ∨
          ∃ record, inspect config pod = .record record ∧
            discover config probes cluster = (.ok (some record), cluster)) := by
  cases hservice : cluster.service with
  | none =>
    left
    exact ⟨rfl, by simp only [discover, hpod, hservice]⟩
  | some service =>
    right
    refine ⟨rfl, ?_⟩
    cases hinspect : inspect config pod with
    | unknown => exact .inl ⟨rfl, by simp only [discover, hpod, hservice, hinspect]⟩
    | invalid e => exact .inr (.inl ⟨e, rfl, by simp only [discover, hpod, hservice, hinspect]⟩)
    | discarded =>
      exact .inr (.inr (.inl ⟨rfl, by simp only [discover, hpod, hservice, hinspect]⟩))
    | record record =>
      exact .inr (.inr (.inr ⟨record, rfl, by simp only [discover, hpod, hservice, hinspect]⟩))

theorem provision_of_mismatch {cluster : Cluster} (hpod : cluster.pod = some pod)
    (h : matchesRequest config identity pod = false) :
    provision config probes request identity cluster = (.error mismatchError, cluster) := by
  simp only [provision, createPod, hpod, h, Bool.false_eq_true, if_false]

theorem meets_iff {cluster : Cluster} (hidentity : request.identity = .ok identity)
    (hpod : cluster.pod = some pod) :
    Meets config probes request cluster ↔ (isAdopted config probes cluster identity pod = true →
        ∀ mounts, pod.sandboxMounts = some mounts → Unshadowed pod.volumes mounts) ∧
      (cluster.service.isSome = true → inspect config pod = .discarded → probes.graceful = true →
        pod.terminating = true) := by
  constructor
  · intro h
    exact ⟨fun hadopted mounts => h.adopted identity pod mounts hidentity hpod hadopted,
      h.discarded identity pod hidentity hpod⟩
  · rintro ⟨hadopted, hdiscarded⟩
    constructor
    · intro identity' pod' mounts hidentity' hpod'
      rw [hidentity] at hidentity'
      rw [hpod] at hpod'
      cases hidentity'
      cases hpod'
      exact fun h => hadopted h mounts
    · intro identity' pod' hidentity' hpod'
      rw [hpod] at hpod'
      cases hpod'
      exact hdiscarded

section Found

variable {cluster : Cluster} {pod : Pod}

section

variable (hidentity : request.identity = .ok identity)
include hidentity

section

variable (hpod : cluster.pod = some pod)
include hpod

theorem keeps_iff_of_no_service (hservice : cluster.service = none)
    (hdiscover : discover config probes cluster = (.ok none, cluster)) :
    Keeps config probes request cluster ↔ (isAdopted config probes cluster identity pod = true →
        ∀ mounts, pod.sandboxMounts = some mounts → Unshadowed pod.volumes mounts) := by
  have hvalid := identity_valid hidentity
  have hcreate : create config probes request cluster =
      provision config probes request identity cluster := by
    simp only [create, hidentity, hdiscover]
  cases hmatches : matchesRequest config identity pod with
  | false =>
    have hkeeps : Keeps config probes request cluster :=
      keeps_of_error (hcreate.trans (provision_of_mismatch hpod hmatches)) fun _ => rfl
    exact ⟨fun _ hadopted => by simp [isAdopted, hmatches] at hadopted, fun _ => hkeeps⟩
  | true =>
    obtain ⟨hsame, hthere⟩ := createService_spec probes cluster
    have hprovision : provision config probes request identity cluster =
        confirm config probes identity (createService probes cluster) := by
      simp only [provision, createPod, hpod, hmatches, if_true]
    rcases confirm_of_matches probes hvalid (hsame.trans hpod) hthere hmatches with
      ⟨record, hconfirm, hid, hrecord, hready⟩ | ⟨hnot, error, cluster', hconfirm, hother⟩
    · rw [keeps_of_ok hidentity (hcreate.trans (hprovision.trans hconfirm)) (hsame.trans hpod) hid.symm,
        serves_iff hmatches]
      have hadopted : isAdopted config probes cluster identity pod = true := by
        simp [isAdopted, hmatches, hrecord, hready]
      exact ⟨fun h _ => h, fun h => h hadopted⟩
    · have hkeeps : Keeps config probes request cluster :=
        keeps_of_error (hcreate.trans (hprovision.trans hconfirm)) fun ⟨message, hmessage⟩ =>
          absurd hmessage (hother message)
      refine ⟨fun _ hadopted => ?_, fun _ => hkeeps⟩
      simp only [isAdopted, hservice, Option.isSome_none, Bool.false_or, Bool.and_eq_true]
        at hadopted
      rw [hadopted.1.2, hadopted.2] at hnot
      cases hnot

theorem keeps_iff_of_record (hservice : cluster.service.isSome = true) {record : Record}
    (hinspect : inspect config pod = .record record)
    (hdiscover : discover config probes cluster = (.ok (some record), cluster)) :
    Keeps config probes request cluster ↔ (isAdopted config probes cluster identity pod = true →
        ∀ mounts, pod.sandboxMounts = some mounts → Unshadowed pod.volumes mounts) := by
  cases hmatches : matchesRequest config identity pod with
  | false =>
    have hcreate : create config probes request cluster = (.error mismatchError, cluster) := by
      simp only [create, hidentity, hdiscover, hpod, Option.any_some, hmatches,
        Bool.false_eq_true, if_false]
    exact ⟨fun _ hadopted => by simp [isAdopted, hmatches] at hadopted,
      fun _ => keeps_of_error hcreate fun _ => rfl⟩
  | true =>
    have hcreate : create config probes request cluster = (.ok record, cluster) := by
      simp only [create, hidentity, hdiscover, hpod, Option.any_some, hmatches, if_true]
    have hread := inspect_of_matches (identity_valid hidentity) hmatches
    rw [hinspect] at hread
    split at hread
    · rename_i record' hrecord
      cases hread
      rw [keeps_of_ok hidentity hcreate hpod (generation_of_recordOf hrecord).symm,
        serves_iff hmatches]
      have hadopted : isAdopted config probes cluster identity pod = true := by
        simp [isAdopted, hmatches, hrecord, hservice]
      exact ⟨fun h _ => h, fun h => h hadopted⟩
    · cases hread

theorem keeps_iff_of_discarded (hinspect : inspect config pod = .discarded)
    (hdiscover : discover config probes cluster = (.ok none, cluster.delete probes.graceful)) :
    Keeps config probes request cluster ↔ (probes.graceful = true → pod.terminating = true) := by
  have hvalid := identity_valid hidentity
  have hmatches := not_matches_of_discarded hvalid hinspect
  have hcreate : create config probes request cluster =
      provision config probes request identity (cluster.delete probes.graceful) := by
    simp only [create, hidentity, hdiscover]
  cases hgraceful : probes.graceful with
  | false =>
    rw [hgraceful] at hcreate
    exact ⟨fun _ hfalse => absurd hfalse Bool.false_ne_true,
      fun _ => keeps_of_provision hidentity rfl hcreate⟩
  | true =>
    rw [hgraceful] at hcreate
    have hterminating := delete_graceful hpod
    have hmismatch : matchesRequest config identity { pod with terminating := true } = false :=
      hmatches
    have hresult := hcreate.trans (provision_of_mismatch hterminating hmismatch)
    constructor
    · intro hkeeps _
      have hsame := hkeeps.raised "sandbox identity does not match existing generation"
        (by rw [hresult]; rfl)
      rw [hresult, hpod] at hsame
      simp only [hterminating, Option.some.injEq] at hsame
      rw [← hsame]
    · intro hbefore
      apply keeps_of_error hresult
      intro _
      rw [hterminating, hpod]
      have hstays := hbefore rfl
      cases pod
      simp only at hstays
      rw [hstays]

end

end

end Found

/-- The Kubernetes backend keeps identities apart exactly when the pod it returns has no shadowed
mount and the pod it discards is not left in its grace period. -/
theorem kubernetes_keeps_iff (config : Config) (probes : Probes) (request : CreateRequest)
    (cluster : Cluster) :
    Keeps config probes request cluster ↔ Meets config probes request cluster := by
  cases hidentity : request.identity with
  | error e =>
    have hcreate : create config probes request cluster = (.error e, cluster) := by
      simp only [create, hidentity]
    have hmeets : Meets config probes request cluster :=
      ⟨by simp [hidentity], by simp [hidentity]⟩
    exact ⟨fun _ => hmeets, fun _ => keeps_of_error hcreate fun _ => rfl⟩
  | ok identity =>
    have hvalid := identity_valid hidentity
    cases hpod : cluster.pod with
    | none =>
      have hcreate : create config probes request cluster =
          provision config probes request identity cluster := by
        simp only [create, hidentity, discover, hpod]
      have hmeets : Meets config probes request cluster := ⟨by simp [hpod], by simp [hpod]⟩
      exact ⟨fun _ => hmeets, fun _ => keeps_of_provision hidentity hpod hcreate⟩
    | some pod =>
      rw [meets_iff hidentity hpod]
      rcases discover_cases config probes hpod with
        ⟨hservice, hdiscover⟩ | ⟨hservice, ⟨hinspect, hdiscover⟩ | ⟨e, hinspect, hdiscover⟩ |
          ⟨hinspect, hdiscover⟩ | ⟨record, hinspect, hdiscover⟩⟩
      · rw [keeps_iff_of_no_service hidentity hpod hservice hdiscover]
        refine ⟨fun h => ⟨h, fun hsome => ?_⟩, fun h => h.1⟩
        rw [hservice] at hsome
        cases hsome
      · have hmatches := not_matches_of_unknown hvalid hinspect
        have hcreate : create config probes request cluster = (.error mismatchError, cluster) := by
          simp only [create, hidentity, hdiscover]
          exact provision_of_mismatch hpod hmatches
        refine ⟨fun _ => ⟨fun hadopted => ?_, fun _ hdiscarded => ?_⟩,
          fun _ => keeps_of_error hcreate fun _ => rfl⟩
        · simp [isAdopted, hmatches] at hadopted
        · rw [hinspect] at hdiscarded
          cases hdiscarded
      · have hcreate : create config probes request cluster = (.error e, cluster) := by
          simp only [create, hidentity, hdiscover]
        refine ⟨fun _ => ⟨fun hadopted => ?_, fun _ hdiscarded => ?_⟩,
          fun _ => keeps_of_error hcreate fun _ => rfl⟩
        · simp only [isAdopted, Bool.and_eq_true] at hadopted
          obtain ⟨record, hrecord⟩ := Option.isSome_iff_exists.mp hadopted.1.2
          have hread := inspect_of_matches hvalid hadopted.1.1
          rw [hinspect, hrecord] at hread
          cases hread
        · rw [hinspect] at hdiscarded
          cases hdiscarded
      · rw [keeps_iff_of_discarded hidentity hpod hinspect hdiscover]
        have hmatches := not_matches_of_discarded hvalid hinspect
        refine ⟨fun h => ⟨fun hadopted => ?_, fun _ _ => h⟩, fun h => h.2 hservice hinspect⟩
        simp [isAdopted, hmatches] at hadopted
      · rw [keeps_iff_of_record hidentity hpod hservice hinspect hdiscover]
        refine ⟨fun h => ⟨h, fun _ hdiscarded => ?_⟩, fun h => h.1⟩
        rw [hinspect] at hdiscarded
        cases hdiscarded

end Kubernetes

/-! ## Both backends -/

/-- Both backends keep identities apart exactly under their conditions. -/
theorem keeps_iff_meets (request : CreateRequest) : (∀ config probes engine,
      Docker.Keeps config probes request engine ↔ Docker.Meets config probes request engine) ∧
    ∀ config probes cluster, Kubernetes.Keeps config probes request cluster ↔
        Kubernetes.Meets config probes request cluster :=
  ⟨fun config probes engine => Docker.docker_keeps_iff config probes request engine,
    fun config probes cluster => Kubernetes.kubernetes_keeps_iff config probes request cluster⟩

/-! ## Another user's sandbox -/

def sampleDigits : PyDigits where
  isDigit c := c.isDigit
  decimal c := if c.isDigit then some (c.toNat - '0'.toNat) else none

def sampleConfig : Docker.Config where
  userDataHostPath := "/srv/user-data".toList
  skillProjectionsHostPath := "/srv/skills".toList
  networkName := "sandbox-net-s".toList
  sandboxId := "s"
  sandboxUrl := "http://sandbox-s:8080"
  digits := sampleDigits

def sampleProbes : Docker.Probes where
  existingReady := true
  newReady := true
  badDirectory := none

/-- A request of Bob for an ephemeral sandbox of the thread. -/
def sampleRequest : CreateRequest where
  threadId := "t".toList
  uid := "bob".toList
  workdirPath := none
  inheritEnv := false
  lifecycle := none
  idleTimeoutSeconds := none

def sampleIdentity : Identity where
  threadId := "t".toList
  uid := "bob".toList
  workdirPath := none
  ephemeral := true

/-- A running ephemeral container of Alice for the thread. -/
def sampleContainer : Docker.Container where
  id := 0
  labels := identityLabels { sampleIdentity with uid := "alice".toList }
  mounts := []
  networks := {"sandbox-net-s".toList}
  running := true

def sampleEngine : Docker.Engine where
  container := some sampleContainer
  network := some ⟨true, true⟩
  nextId := 1

/-- Alice's container passes every test of the request, which reads no user label, and is returned
to Bob. -/
theorem docker_reuses_foreign_user :
    ¬ Docker.Keeps sampleConfig sampleProbes sampleRequest sampleEngine := by
  intro hkeeps
  have hmeets := (Docker.docker_keeps_iff _ _ _ _).mp hkeeps
  have hlabel := (hmeets sampleIdentity sampleContainer (by decide) rfl (by decide)).1
  revert hlabel
  decide

end Yuanlei.Provisioner
