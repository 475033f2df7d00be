import Yuanlei.Provisioner.Identity

/-!
# The Kubernetes backend of the provisioner

The model of `KubernetesProvisionerBackend` for one sandbox id: the pod and
the service under the id's names, the mount tests, `discover`,
`_discovered_matches_request` and `create` as one call under the
backend's lock.  Whether a deleted pod is gone at once or stays until its grace
period is over, and whether the sandbox answers its probe, is given from outside.

Main results:

- `create`: discovery, adoption and creation of a pod.
- `matchesRequest_spec`: what a matching pod carries.
-/

namespace Yuanlei.Provisioner
namespace Kubernetes

open PosixPath (Text)
open Workspace (rstripSlashes)

/-! ## Pods -/

structure VolumeMount where
  name : Text
  mountPath : Text
  subPath : Text
  readOnly : Bool
  deriving DecidableEq

structure PodContainer where
  name : Text
  volumeMounts : List VolumeMount

/-- A pod; a volume that is no claim has the empty claim name. -/
structure Pod where
  uid : Nat
  annotations : Labels
  volumes : Table Text Text
  containers : List PodContainer
  /-- Deleted and in its grace period. -/
  terminating : Bool

/-- What the cluster holds under the names of one sandbox id; the service has a node port or not. -/
structure Cluster where
  pod : Option Pod
  service : Option (Option Nat)
  nextUid : Nat

structure Config where
  userDataPvc : Text
  skillPvc : Text
  sandboxId : String
  sandboxUrl : String
  digits : PyDigits

structure Probes where
  /-- The sandbox answers in time. -/
  ready : Bool
  /-- A deleted pod stays until its grace period is over. -/
  graceful : Bool
  /-- The node port of a new service. -/
  nodePort : Nat

def userDataVolume : Text :=
  "user-data".toList

def skillsVolume : Text :=
  "skills-data".toList

/-- The sub path of a user's workspace on its claim. -/
def workspaceSubPath (uid : Text) : Text :=
  "shared/".toList ++ uid ++ "/workspace".toList

/-- The sub path of a user's skill projection on its claim. -/
def skillsSubPath (uid : Text) : Text :=
  "skill-projections/".toList ++ uid

/-! ## Tests on a pod -/

def VolumeMount.destinationPath (mount : VolumeMount) : Text :=
  rstripSlashes mount.mountPath

/-- The mounts of the first container named `sandbox`. -/
def Pod.sandboxMounts (pod : Pod) : Option (List VolumeMount) :=
  (pod.containers.find? (·.name == "sandbox".toList)).map (·.volumeMounts)

/-- The dict of mounts keeps the last one of a destination. -/
def lastMount (mounts : List VolumeMount) (destination : Text) : Option VolumeMount :=
  mounts.reverse.find? (·.destinationPath == destination)

/-- The mount of the destination has this volume and this sub path. -/
def mountsVolume (mounts : List VolumeMount) (destination volume subPath : Text) : Bool :=
  (lastMount mounts destination).any fun mount => mount.name == volume && mount.subPath == subPath

/-- The mounts of a sandbox container that keeps its files. -/
def hasPersistentMounts (mounts : List VolumeMount) (uid : Text) : Bool :=
  mountsVolume mounts userDataDestination userDataVolume (workspaceSubPath uid) &&
    mountsVolume mounts skillsDestination skillsVolume (skillsSubPath uid) &&
    (lastMount mounts skillsDestination).any (·.readOnly) &&
    mounts.all fun mount =>
      !isPersistentSandboxMountPath mount.destinationPath ||
        [userDataDestination, skillsDestination].contains mount.destinationPath

def podHasExpectedMounts (config : Config) (pod : Pod) (uid : Text) (ephemeral : Bool) : Bool :=
  if ephemeral then
    pod.sandboxMounts.any fun mounts =>
      mounts.all fun mount => !isPersistentSandboxMountPath mount.destinationPath
  else
    pod.volumes.get userDataVolume == some config.userDataPvc &&
      pod.volumes.get skillsVolume == some config.skillPvc &&
      pod.sandboxMounts.any (hasPersistentMounts · uid)

/-- `_discovered_matches_request` on the pod it reads. -/
def matchesRequest (config : Config) (identity : Identity) (pod : Pod) : Bool :=
  pod.annotations.identity == identity &&
    podHasExpectedMounts config pod identity.uid identity.ephemeral

/-! ## discover -/

/-- `delete` without a generation. -/
def Cluster.delete (cluster : Cluster) (graceful : Bool) : Cluster :=
  { cluster with
    pod := if graceful then cluster.pod.map fun pod => { pod with terminating := true } else none
    service := none }

/-- What `discover` makes of a pod that has a service. -/
inductive Discovery where
  /-- The pod does not carry an identity. -/
  | unknown
  | invalid (error : CreateError)
  /-- The pod is discarded because of its mounts. -/
  | discarded
  | record (record : Record)

/-- `discover` on a pod that has a service. -/
def inspect (config : Config) (pod : Pod) : Discovery :=
  let carried := pod.annotations.identity
  if carried.threadId = [] ∨ carried.uid = [] then
    .unknown
  else
    match validatePathSegment carried.threadId "thread_id", validatePathSegment carried.uid "uid",
        normalizeOptionalWorkdir carried.workdirPath with
    | .ok _, .ok safeUid, .ok safeWorkdirPath =>
      if podHasExpectedMounts config pod safeUid carried.ephemeral then
        match recordOf config.digits pod.uid safeWorkdirPath pod.annotations with
        | some record => .record record
        | none => .invalid (intError pod.annotations)
      else if safeWorkdirPath.isSome then
        .invalid (.mismatch "sandbox mounts do not match recorded Workdir identity")
      else
        .discarded
    | .error e, _, _ => .invalid e
    | _, .error e, _ => .invalid e
    | _, _, .error e => .invalid e

def discover (config : Config) (probes : Probes) (cluster : Cluster) :
    Except CreateError (Option Record) × Cluster :=
  match cluster.pod, cluster.service with
  | some pod, some _ =>
    match inspect config pod with
    | .unknown => (.ok none, cluster)
    | .invalid e => (.error e, cluster)
    | .discarded => (.ok none, cluster.delete probes.graceful)
    | .record record => (.ok (some record), cluster)
  | _, _ => (.ok none, cluster)

/-! ## create -/

/-- The mounts of the sandbox container of a new pod. -/
def newVolumeMounts (identity : Identity) : List VolumeMount :=
  ⟨"home-dir".toList, "/home/gem".toList, [], false⟩ ::
    if identity.ephemeral then
      []
    else
      [ ⟨userDataVolume, userDataDestination, workspaceSubPath identity.uid, false⟩,
        ⟨skillsVolume, skillsDestination, skillsSubPath identity.uid, true⟩ ]

/-- `_build_pod_spec`. -/
def newPod (config : Config) (identity : Identity) (request : CreateRequest) (uid : Nat) : Pod where
  uid := uid
  annotations := newLabels identity request
  volumes :=
    if identity.ephemeral then
      Table.empty.upsert "home-dir".toList []
    else
      ((Table.empty.upsert userDataVolume config.userDataPvc).upsert skillsVolume
        config.skillPvc).upsert "home-dir".toList []
  containers := [⟨"sandbox".toList, newVolumeMounts identity⟩]
  terminating := false

section Create

variable (config : Config) (probes : Probes) (request : CreateRequest) (identity : Identity)

def mismatchError : CreateError :=
  .mismatch "sandbox identity does not match existing generation"

def notReadyError : CreateError :=
  .runtime ("sandbox " ++ config.sandboxId ++ " is not ready at " ++ config.sandboxUrl)

/-- The pod that is there after `create_namespaced_pod`: a new one, or on a conflict the old
one when it matches the request. -/
def createPod (cluster : Cluster) : Option Cluster :=
  match cluster.pod with
  | some pod => if matchesRequest config identity pod then some cluster else none
  | none =>
    some { cluster with
      pod := some (newPod config identity request cluster.nextUid)
      nextUid := cluster.nextUid + 1 }

/-- `create_namespaced_service`, a conflict being accepted. -/
def createService (cluster : Cluster) : Cluster :=
  match cluster.service with
  | some _ => cluster
  | none => { cluster with service := some (some probes.nodePort) }

/-- The part of `create` after the service is there. -/
def confirm (cluster : Cluster) : Except CreateError Record × Cluster :=
  match discover config probes cluster with
  | (.error e, cluster) => (.error e, cluster)
  | (.ok none, cluster) =>
    (.error (.runtime ("failed to discover sandbox after create: " ++ config.sandboxId)), cluster)
  | (.ok (some record), cluster) =>
    if cluster.pod.any (matchesRequest config identity) then
      if probes.ready then (.ok record, cluster)
      else (.error (notReadyError config), cluster.delete probes.graceful)
    else
      (.error (.mismatch "sandbox identity does not match created generation"), cluster)

/-- The part of `create` behind a discovery that found nothing. -/
def provision (cluster : Cluster) : Except CreateError Record × Cluster :=
  match createPod config request identity cluster with
  | none => (.error mismatchError, cluster)
  | some cluster => confirm config probes identity (createService probes cluster)

def create (cluster : Cluster) : Except CreateError Record × Cluster :=
  match request.identity with
  | .error e => (.error e, cluster)
  | .ok identity =>
    match discover config probes cluster with
    | (.error e, cluster) => (.error e, cluster)
    | (.ok (some record), cluster) =>
      if cluster.pod.any (matchesRequest config identity) then (.ok record, cluster)
      else (.error mismatchError, cluster)
    | (.ok none, cluster) => provision config probes request identity cluster

end Create

theorem matchesRequest_spec {config : Config} {identity : Identity} {pod : Pod}
    (h : matchesRequest config identity pod = true) :
    pod.annotations.identity = identity ∧
      podHasExpectedMounts config pod identity.uid identity.ephemeral = true := by
  have hboth := (Bool.and_eq_true _ _).mp h
  exact ⟨beq_iff_eq.mp hboth.1, hboth.2⟩

end Kubernetes

end Yuanlei.Provisioner
