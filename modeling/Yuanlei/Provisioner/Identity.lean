import Yuanlei.Lib.Table
import Yuanlei.Workspace.Paths

/-!
# What a sandbox request asks for and what a sandbox carries

The parts of the provisioner that its two backends share: the validation of a
create request, the identity that a container or pod carries in its labels or
annotations, the roots at which files may be mounted, and the record that is
read back.

Main results:

- `normalizeWorkdirPath_idem`: a validated Workdir is validated again
  to itself.
- `identity_valid`: the segments of a request's identity pass their checks again.
-/

namespace Yuanlei.Provisioner

open PosixPath (Text asPosix)
open PyText (stripChars)

/-! ## Mount roots -/

def persistentSandboxMountRoots : List Text :=
  ["/home/gem/skills".toList, "/home/gem/user-data".toList, "/home/gem/projects".toList]

def isPersistentSandboxMountPath (path : Text) : Bool :=
  persistentSandboxMountRoots.any fun root => path == root || (root ++ ['/']).isPrefixOf path

/-- Where the skill projection is mounted. -/
def skillsDestination : Text :=
  "/home/gem/skills".toList

/-- Where the user's workspace is mounted. -/
def userDataDestination : Text :=
  "/home/gem/user-data".toList

theorem skills_ne_userData : skillsDestination ≠ userDataDestination := by
  decide

/-! ## Requests -/

/-- The exceptions of a create call, with their texts; `mismatch` is a `ValueError` about
an identity that differs. -/
inductive CreateError where
  | value (message : String)
  | mismatch (message : String)
  | runtime (message : String)
  deriving DecidableEq

/-- The characters of `SAFE_PATH_SEGMENT_RE`. -/
def isSegmentChar (c : Char) : Bool :=
  c.isAlphanum || c == '_' || c == '-'

def validatePathSegment (value : Text) (label : String) : Except CreateError Text :=
  let candidate := stripChars value
  if candidate = [] then
    .error (.value (label ++ " is required"))
  else if candidate.all isSegmentChar then
    .ok candidate
  else
    .error (.value (label ++ " must contain only letters, numbers, '-' or '_'"))

/-- `normalize_workdir_path(workdir_path) if workdir_path else None`; the provisioner's copy of
the function is the one of the backend. -/
def normalizeOptionalWorkdir : Option Text → Except CreateError (Option Text)
  | none => .ok none
  | some [] => .ok none
  | some path =>
    match normalizeWorkdirPath path with
    | .ok normalized => .ok (some normalized)
    | .error (.value message) => .error (.value message)
    | .error _ => .error (.value "")

/-- What `create` is called with, but for the environment. -/
structure CreateRequest where
  threadId : Text
  uid : Text
  workdirPath : Option Text
  inheritEnv : Bool
  lifecycle : Option Text
  idleTimeoutSeconds : Option Nat

/-- Whose sandbox it is, on which Workdir and with which storage. -/
structure Identity where
  threadId : Text
  uid : Text
  workdirPath : Option Text
  ephemeral : Bool
  deriving DecidableEq

/-- The first statements of both `create` methods. -/
def CreateRequest.identity (request : CreateRequest) : Except CreateError Identity :=
  match validatePathSegment request.threadId "thread_id" with
  | .error e => .error e
  | .ok threadId =>
    match validatePathSegment request.uid "uid" with
    | .error e => .error e
    | .ok uid =>
      match normalizeOptionalWorkdir request.workdirPath with
      | .error e => .error e
      | .ok workdirPath =>
        .ok ⟨threadId, uid, workdirPath, !request.inheritEnv && workdirPath.isNone⟩

/-! ## Labels -/

/-- The labels of a container, or the annotations of a pod. -/
abbrev Labels := Table String Text

namespace Labels

variable (labels : Labels)

/-- `str(labels.get(key) or "").strip()`. -/
def text (key : String) : Text :=
  stripChars ((labels.get key).getD [])

/-- `str(labels.get(key) or "").strip() or None`. -/
def textOrNone (key : String) : Option Text :=
  if labels.text key = [] then none else some (labels.text key)

/-- `labels.get("storage-mode") == "ephemeral"`. -/
def isEphemeral : Bool :=
  labels.get "storage-mode" == some "ephemeral".toList

/-- The identity that the labels carry. -/
def identity : Identity where
  threadId := labels.text "thread-id"
  uid := labels.text "uid"
  workdirPath := labels.textOrNone "workdir-path"
  ephemeral := labels.isEphemeral

end Labels

/-- The labels of a new container, or the annotations of a new pod, that say whose it is. -/
def identityLabels (identity : Identity) : Labels :=
  (((Table.empty.upsert "thread-id" identity.threadId).upsert "uid" identity.uid).upsert
    "workdir-path" (identity.workdirPath.getD [])).upsert "storage-mode"
      (if identity.ephemeral then "ephemeral".toList else "persistent".toList)

/-- The label is written when there is a value. -/
def upsertSome (labels : Labels) (key : String) : Option Text → Labels
  | some value => labels.upsert key value
  | none => labels

/-- The labels that `create` writes. -/
def newLabels (identity : Identity) (request : CreateRequest) : Labels :=
  upsertSome (upsertSome (identityLabels identity) "lifecycle" request.lifecycle)
    "idle-timeout-seconds" (request.idleTimeoutSeconds.map (Nat.toDigits 10))

variable {key : String}

theorem get_upsertSome_of_ne (labels : Labels) {other : String} (hne : other ≠ key)
    (value : Option Text) : (upsertSome labels key value).get other = labels.get other := by
  cases value with
  | none => rfl
  | some value => rw [upsertSome, Table.get_upsert, if_neg hne]

theorem get_newLabels (identity : Identity) (request : CreateRequest)
    (hlifecycle : key ≠ "lifecycle") (htimeout : key ≠ "idle-timeout-seconds") :
    (newLabels identity request).get key = (identityLabels identity).get key := by
  unfold newLabels
  rw [get_upsertSome_of_ne _ htimeout, get_upsertSome_of_ne _ hlifecycle]

/-! ## Records -/

/-- `str.isdigit` and `int` on single characters; there are digits without a decimal
value. -/
structure PyDigits where
  isDigit : Char → Bool
  decimal : Char → Option Nat

/-- `int` of a text of digits; `none` raises. -/
def PyDigits.int (digits : PyDigits) (raw : Text) : Option Nat :=
  raw.foldl (fun value c => value.bind fun n => (digits.decimal c).map fun d => 10 * n + d) (some 0)

/-- What the tests of a create call and its callers read of a `SandboxRecord`. -/
structure Record where
  generation : Nat
  workdirPath : Option Text
  lifecycle : Option Text
  idleTimeoutSeconds : Option Nat
  deriving DecidableEq

/-- The record of a container or pod with these labels; `none` raises. -/
def recordOf (digits : PyDigits) (generation : Nat) (workdirPath : Option Text) (labels : Labels) :
    Option Record :=
  let rawIdleTimeout := labels.text "idle-timeout-seconds"
  if rawIdleTimeout ≠ [] ∧ rawIdleTimeout.all digits.isDigit then
    (digits.int rawIdleTimeout).map fun timeout =>
      ⟨generation, workdirPath, labels.textOrNone "lifecycle", some timeout⟩
  else
    some ⟨generation, workdirPath, labels.textOrNone "lifecycle", none⟩

/-- The exception of `int` on a digit without a decimal value. -/
def intError (labels : Labels) : CreateError :=
  .value ("invalid literal for int() with base 10: '" ++
    String.ofList (labels.text "idle-timeout-seconds") ++ "'")

theorem generation_of_recordOf {digits : PyDigits} {generation : Nat} {workdirPath : Option Text}
    {labels : Labels} {record : Record}
    (h : recordOf digits generation workdirPath labels = some record) :
    record.generation = generation := by
  simp only [recordOf] at h
  split at h
  · obtain ⟨timeout, -, rfl⟩ := Option.map_eq_some_iff.mp h
    rfl
  · cases h
    rfl

/-! ## Validated values are fixed points -/

theorem validatePathSegment_idem {value segment : Text} {label : String}
    (h : validatePathSegment value label = .ok segment) (other : String) :
    validatePathSegment segment other = .ok segment ∧ stripChars segment = segment ∧
      segment ≠ [] := by
  simp only [validatePathSegment] at h
  split at h
  · cases h
  · split at h
    · rename_i hne hall
      cases h
      have hsame := PyText.stripChars_stripChars value
      refine ⟨?_, hsame, hne⟩
      simp only [validatePathSegment, hsame]
      rw [if_neg hne, if_pos hall]
    · cases h

theorem normalizeWorkdirPath_idem {path normalized : Text}
    (h : normalizeWorkdirPath path = .ok normalized) :
    normalizeWorkdirPath normalized = .ok normalized ∧ stripChars normalized = normalized ∧
      normalized ≠ [] := by
  obtain ⟨hraw, hne, -⟩ := (Workdir.mk path normalized h).relativePath_eq
  simp only at hraw hne
  have hsame : stripChars normalized = normalized := by
    rw [hraw]
    exact PyText.stripChars_stripChars path
  refine ⟨?_, hsame, hne⟩
  have hpath : normalizeWorkdirPath normalized = normalizeWorkdirPath path := by
    simp only [normalizeWorkdirPath, hsame]
    rw [← hraw]
  rw [hpath, h]

theorem normalizeOptionalWorkdir_idem {path normalized : Option Text}
    (h : normalizeOptionalWorkdir path = .ok normalized) :
    normalizeOptionalWorkdir normalized = .ok normalized ∧
      ∀ text, normalized = some text → stripChars text = text ∧ text ≠ [] := by
  unfold normalizeOptionalWorkdir at h
  split at h
  · cases h
    exact ⟨rfl, by simp⟩
  · cases h
    exact ⟨rfl, by simp⟩
  · split at h
    · rename_i text _ hnormalized
      cases h
      obtain ⟨hidem, hstrip, hne⟩ := normalizeWorkdirPath_idem hnormalized
      constructor
      · unfold normalizeOptionalWorkdir
        split
        · rename_i hnone
          cases hnone
        · rename_i hnil
          cases hnil
          exact absurd rfl hne
        · rename_i other _ hother
          cases hother
          rw [hidem]
      · intro other hother
        cases hother
        exact ⟨hstrip, hne⟩
    · cases h
    · cases h

/-- What the validation of a request leaves. -/
structure Identity.Valid (identity : Identity) : Prop where
  threadId : validatePathSegment identity.threadId "thread_id" = .ok identity.threadId ∧
    stripChars identity.threadId = identity.threadId ∧ identity.threadId ≠ []
  uid : validatePathSegment identity.uid "uid" = .ok identity.uid ∧
    stripChars identity.uid = identity.uid ∧ identity.uid ≠ []
  workdirPath : normalizeOptionalWorkdir identity.workdirPath = .ok identity.workdirPath ∧
    ∀ path, identity.workdirPath = some path → stripChars path = path ∧ path ≠ []

variable {identity : Identity}

/-- The parts of a request's identity pass their checks again. -/
theorem identity_valid {request : CreateRequest} (h : request.identity = .ok identity) : identity.Valid := by
  unfold CreateRequest.identity at h
  split at h
  · cases h
  · rename_i threadId hthread
    split at h
    · cases h
    · rename_i uid huid
      split at h
      · cases h
      · rename_i workdirPath hworkdir
        cases h
        exact ⟨validatePathSegment_idem hthread "thread_id", validatePathSegment_idem huid "uid",
          normalizeOptionalWorkdir_idem hworkdir⟩

/-! ## The identity of a new container or pod -/

theorem get_identityLabels (identity : Identity) :
    (identityLabels identity).get "thread-id" = some identity.threadId ∧
      (identityLabels identity).get "uid" = some identity.uid ∧
      (identityLabels identity).get "workdir-path" = some (identity.workdirPath.getD []) ∧
      (identityLabels identity).get "storage-mode" =
        some (if identity.ephemeral then "ephemeral".toList else "persistent".toList) := by
  unfold identityLabels
  simp only [Table.get_upsert, String.reduceEq, if_true, if_false]
  exact ⟨trivial, trivial, trivial, trivial⟩

/-- What `create` writes is what it compares later. -/
theorem identity_newLabels (h : identity.Valid) (request : CreateRequest) :
    (newLabels identity request).identity = identity := by
  obtain ⟨hthread, huid, hworkdir, hstorage⟩ := get_identityLabels identity
  rw [← get_newLabels identity request (by decide) (by decide)] at hthread huid hworkdir hstorage
  have hstripped : (newLabels identity request).textOrNone "workdir-path" =
      identity.workdirPath := by
    unfold Labels.textOrNone Labels.text
    rw [hworkdir]
    cases hpath : identity.workdirPath with
    | none => rfl
    | some path =>
      obtain ⟨hstrip, hne⟩ := h.workdirPath.2 path hpath
      simp only [Option.getD_some, hstrip, if_neg hne]
  have hephemeral : (newLabels identity request).isEphemeral = identity.ephemeral := by
    unfold Labels.isEphemeral
    rw [hstorage]
    cases identity.ephemeral <;> decide
  unfold Labels.identity
  rw [hstripped, hephemeral]
  simp only [Labels.text, hthread, huid, Option.getD_some, h.threadId.2.1, h.uid.2.1]

end Yuanlei.Provisioner
