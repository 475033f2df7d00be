import Mathlib.Data.Finset.Insert
import Yuanlei.Provisioner.Identity

/-!
# The Docker backend of the provisioner

The model of `LocalContainerProvisionerBackend` for one sandbox id: what the
engine holds under the container name and the network name of the id, the tests
of `create` and `discover` on a container, and `create` as one
call that nothing interrupts.  Every engine call succeeds; whether a container
answers the readiness probe and whether the host directories pass their check is
given from outside.

Main results:

- `create`: the reuse, repair, recreation and creation of a container.
- `mem_newMounts`: the mounts of a container that `create` starts.
-/

namespace Yuanlei.Provisioner
namespace Docker

open PosixPath (Text asPosix)
open PyText (stripChars)
open Workspace (rstripSlashes)

/-! ## The engine -/

/-- A mount as the engine reports it; a missing text reads as the empty one. -/
structure Mount where
  destination : Text
  source : Text
  rw : Option Bool
  deriving DecidableEq

structure Container where
  id : Nat
  labels : Labels
  mounts : List Mount
  networks : Finset Text
  running : Bool

/-- A network under the sandbox's network name. -/
structure Network where
  /-- `_has_expected_network_ownership`. -/
  owned : Bool
  /-- The provisioner's own container is connected. -/
  connected : Bool
  deriving DecidableEq

/-- What the engine holds under the names of one sandbox id. -/
structure Engine where
  container : Option Container
  network : Option Network
  nextId : Nat

/-- The settings of the backend, with the names of the sandbox id. -/
structure Config where
  userDataHostPath : Text
  skillProjectionsHostPath : Text
  networkName : Text
  sandboxId : String
  sandboxUrl : String
  digits : PyDigits

namespace Config

variable (config : Config)

def userSkillsHostPath (uid : Text) : Text :=
  asPosix (config.skillProjectionsHostPath ++ '/' :: uid)

def sharedWorkspaceHostPath (uid : Text) : Text :=
  asPosix (config.userDataHostPath ++ "/shared/".toList ++ uid ++ "/workspace".toList)

end Config

/-- The host directories that a create call opens, by their labels. -/
inductive HostDirectory where
  | userWorkspace
  | skillProjection
  | workdirPath
  deriving DecidableEq

def HostDirectory.label : HostDirectory → String
  | .userWorkspace => "user workspace"
  | .skillProjection => "skill projection"
  | .workdirPath => "workdir_path"

/-- What a create call finds outside the engine. -/
structure Probes where
  /-- The container that is there answers in time. -/
  existingReady : Bool
  /-- The new container answers in time. -/
  newReady : Bool
  /-- The first host directory that is missing or behind a symbolic link. -/
  badDirectory : Option HostDirectory

/-! ## Tests on a container -/

def Mount.destinationPath (mount : Mount) : Text :=
  rstripSlashes mount.destination

def Mount.sourcePath (mount : Mount) : Text :=
  rstripSlashes mount.source

section Tests

variable (config : Config)

/-- `_is_expected_skills_mount` looks at the first mount of that destination. -/
def isExpectedSkillsMount (mounts : List Mount) (uid : Text) : Bool :=
  match mounts.find? (·.destinationPath == skillsDestination) with
  | some mount =>
    mount.sourcePath == config.userSkillsHostPath uid && mount.rw == some false
  | none => false

/-- The dict of `_has_expected_user_data_mounts` keeps the last mount of a destination. -/
def lastSource (mounts : List Mount) (destination : Text) : Option Text :=
  (mounts.reverse.find? (·.destinationPath == destination)).map (·.sourcePath)

def hasExpectedUserDataMounts (mounts : List Mount) (uid : Text) : Bool :=
  lastSource mounts userDataDestination == some (config.sharedWorkspaceHostPath uid) &&
    mounts.all fun mount =>
      !isPersistentSandboxMountPath mount.destinationPath ||
        [userDataDestination, skillsDestination].contains mount.destinationPath

def hasNoPersistentFileMounts (mounts : List Mount) : Bool :=
  mounts.all fun mount => !isPersistentSandboxMountPath mount.destinationPath

def isOnExpectedNetwork (container : Container) : Bool :=
  container.networks == {config.networkName}

/-- The comparisons of `create` that raise. -/
def identityError (identity : Identity) (labels : Labels) : Option String :=
  if labels.text "thread-id" ≠ identity.threadId then
    some "sandbox runtime identity does not match existing generation"
  else if labels.textOrNone "workdir-path" ≠ identity.workdirPath then
    some "sandbox workdir identity does not match existing generation"
  else if labels.isEphemeral ≠ identity.ephemeral then
    some "sandbox storage identity does not match existing generation"
  else
    none

/-- The tests of `create` after which the container is deleted. -/
def isStale (identity : Identity) (container : Container) : Bool :=
  (identity.ephemeral && !hasNoPersistentFileMounts container.mounts) ||
    (!identity.ephemeral && !isExpectedSkillsMount config container.mounts identity.uid) ||
    !isOnExpectedNetwork config container ||
    (!identity.ephemeral && !hasExpectedUserDataMounts config container.mounts identity.uid)

/-- `_to_record`; `none` raises. -/
def toRecord (container : Container) : Option Record :=
  recordOf config.digits container.id (container.labels.textOrNone "workdir-path") container.labels

end Tests

/-! ## Networks -/

/-- `_ensure_network`; `none` raises because of the network's owner. -/
def Engine.ensureNetwork (engine : Engine) : Option Engine :=
  match engine.network with
  | none => some { engine with network := some ⟨true, true⟩ }
  | some network =>
    if network.owned then
      some { engine with network := some { network with connected := true } }
    else
      none

/-- `_delete_network` leaves a network of another owner. -/
def Engine.deleteNetwork (engine : Engine) : Engine :=
  match engine.network with
  | none => engine
  | some network => if network.owned then { engine with network := none } else engine

/-- `delete` without a generation. -/
def Engine.delete (engine : Engine) : Engine :=
  { engine with container := none }.deleteNetwork

def ownershipError (config : Config) : CreateError :=
  .runtime ("sandbox network " ++ String.ofList config.networkName ++ " has unexpected ownership")

/-! ## A new container -/

/-- The volumes of a new container by host path, with their destination and mode. -/
def newVolumes (config : Config) (identity : Identity) : Table Text (Text × Bool) :=
  if identity.ephemeral then
    Table.empty
  else
    (Table.empty.upsert (config.userSkillsHostPath identity.uid) (skillsDestination, false)).upsert
      (config.sharedWorkspaceHostPath identity.uid) (userDataDestination, true)

/-- The mounts that the engine reports for the volumes. -/
def newMounts (config : Config) (identity : Identity) : List Mount :=
  (newVolumes config identity).rows.map fun row => ⟨row.2.1, row.1, some row.2.2⟩

/-- `containers.run`. -/
def newContainer (config : Config) (identity : Identity) (request : CreateRequest) (id : Nat) :
    Container where
  id := id
  labels := newLabels identity request
  mounts := newMounts config identity
  networks := {config.networkName}
  running := true

/-! ## create -/

section Create

variable (config : Config) (probes : Probes) (request : CreateRequest) (identity : Identity)

def notReadyError : CreateError :=
  .runtime ("sandbox " ++ config.sandboxId ++ " is not ready at " ++ config.sandboxUrl)

/-- The part of `create` that starts a container. -/
def run (engine : Engine) : Except CreateError Record × Engine :=
  match if identity.ephemeral then none else probes.badDirectory with
  | some directory =>
    (.error (.value (directory.label ++ " must reference an existing directory without symlinks")), engine)
  | none =>
    match engine.ensureNetwork with
    | none => (.error (ownershipError config), engine)
    | some engine =>
      let container := newContainer config identity request engine.nextId
      let started : Engine :=
        { engine with container := some container, nextId := engine.nextId + 1 }
      match toRecord config container with
      | some record =>
        if probes.newReady then (.ok record, started)
        else (.error (notReadyError config), started.delete)
      | none => (.error (intError container.labels), started.delete)

/-- The record of a running container that answers its probe. -/
def healthyRecord (container : Container) : Option Record :=
  if container.running && probes.existingReady then toRecord config container else none

/-- The part of `create` that finds a container whose identity does not differ. -/
def reuse (engine : Engine) (existing : Container) : Except CreateError Record × Engine :=
  if isStale config identity existing then
    run config probes request identity engine.delete
  else
    match engine.ensureNetwork with
    | none => (.error (ownershipError config), engine)
    | some engine =>
      match healthyRecord config probes existing with
      | some record => (.ok record, engine)
      | none => run config probes request identity engine.delete

def create (engine : Engine) : Except CreateError Record × Engine :=
  match request.identity with
  | .error e => (.error e, engine)
  | .ok identity =>
    match engine.container with
    | none => run config probes request identity engine
    | some existing =>
      match identityError identity existing.labels with
      | some message => (.error (.mismatch message), engine)
      | none => reuse config probes request identity engine existing

end Create

/-! ## Mounts of a new container -/

open PosixPath (components join IsComponent rootOf)

theorem exists_join_eq_concat {cs : List Text} (hne : cs ≠ []) (h : ∀ c ∈ cs, IsComponent c) :
    ∃ v a, a ≠ '/' ∧ join cs = v ++ [a] := by
  obtain ⟨ds, c, rfl⟩ := (List.eq_nil_or_concat cs).resolve_left hne
  obtain ⟨hslash, hc, -⟩ := h c (by simp)
  obtain ⟨u, a, rfl⟩ := (List.eq_nil_or_concat c).resolve_left hc
  have ha : a ≠ '/' := by
    rintro rfl
    exact hslash (by simp)
  by_cases hds : ds = []
  · exact ⟨u, a, ha, by rw [hds]; simp⟩
  · refine ⟨join ds ++ '/' :: u, a, ha, ?_⟩
    rw [List.concat_eq_append, PosixPath.join_append hds (List.cons_ne_nil _ _)]
    simp

theorem rstripSlashes_asPosix {s : Text} (h : components s ≠ []) :
    rstripSlashes (asPosix s) = asPosix s := by
  obtain ⟨v, a, ha, hjoin⟩ :=
    exists_join_eq_concat h fun c hc => PosixPath.isComponent_of_mem hc
  have hnormal : asPosix s = (rootOf s ++ v) ++ [a] := by
    unfold asPosix
    rw [if_neg (fun hboth => h hboth.2), hjoin, List.append_assoc]
  rw [hnormal]
  apply List.rdropWhile_concat_neg
  simpa using ha

variable (config : Config)

theorem rstripSlashes_sharedWorkspace (uid : Text) :
    rstripSlashes (config.sharedWorkspaceHostPath uid) = config.sharedWorkspaceHostPath uid := by
  apply rstripSlashes_asPosix
  have hlast : config.userDataHostPath ++ "/shared/".toList ++ uid ++ "/workspace".toList =
      (config.userDataHostPath ++ "/shared/".toList ++ uid) ++ '/' :: "workspace".toList := rfl
  rw [hlast, PosixPath.components_append_slash]
  have hworkspace : components "workspace".toList = ["workspace".toList] := by decide
  rw [hworkspace]
  simp

variable {label : String}

theorem components_of_segment {value : Text} (h : validatePathSegment value label = .ok value)
    (hne : value ≠ []) :
    components value = [value] := by
  have hall : value.all isSegmentChar = true := by
    simp only [validatePathSegment] at h
    split at h
    · cases h
    · split at h
      · rename_i hchars
        rw [Except.ok.injEq] at h
        rwa [h] at hchars
      · cases h
  apply PosixPath.components_of_isComponent
  refine ⟨?_, hne, ?_⟩
  · intro hslash
    have hchar := List.all_eq_true.mp hall '/' hslash
    revert hchar
    decide
  · rintro rfl
    revert hall
    decide

theorem rstripSlashes_userSkills {uid : Text} (h : validatePathSegment uid label = .ok uid)
    (hne : uid ≠ []) :
    rstripSlashes (config.userSkillsHostPath uid) = config.userSkillsHostPath uid := by
  apply rstripSlashes_asPosix
  rw [PosixPath.components_append_slash, components_of_segment h hne]
  simp

theorem mem_newMounts {config : Config} {identity : Identity} {mount : Mount}
    (h : mount ∈ newMounts config identity) :
    identity.ephemeral = false ∧ ((mount.destination = userDataDestination ∧
          mount.source = config.sharedWorkspaceHostPath identity.uid) ∨
        (mount.destination = skillsDestination ∧
          mount.source = config.userSkillsHostPath identity.uid ∧ mount.rw = some false)) := by
  unfold newMounts at h
  obtain ⟨row, hrow, rfl⟩ := List.mem_map.mp h
  unfold newVolumes at hrow
  split at hrow
  · simp [Table.empty] at hrow
  · rename_i hpersistent
    refine ⟨by simpa using hpersistent, ?_⟩
    have hget := (Table.mem_rows_iff _ row.1 row.2).mp hrow
    rw [Table.get_upsert] at hget
    split at hget
    · rename_i hsource
      have hvalue := Option.some.inj hget
      left
      rw [← hvalue]
      exact ⟨rfl, hsource⟩
    · rw [Table.get_upsert] at hget
      split at hget
      · rename_i hsource
        have hvalue := Option.some.inj hget
        right
        rw [← hvalue]
        exact ⟨rfl, hsource, rfl⟩
      · simp at hget

end Docker

end Yuanlei.Provisioner
