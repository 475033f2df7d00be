import Yuanlei.Sandbox.Quota
import Yuanlei.Coding.Fingerprints

/-!
# The environment of a dedicated sandbox

`ensure_ready` reuses the container of a dedicated sandbox or creates one from the credentials
of its caller, and the row of the sandbox keeps the fingerprint of the credentials that the
container was created from.  Users and administrators change the credentials meanwhile.

A call holds the lock of the row.  A caller commits a call that returns and rolls back one that
raises, while what the call did to the container stays.  Under the overrides of the caller lies the
environment of the user, which is left out.

Main results:

- `ensureReady_cases`: what a call does to row and container.
- `created_with_environment_of_run`: so it is in every run that meets the conditions.
-/

universe u

namespace Yuanlei.SandboxReadiness

open CodingCredentials
open CodingTurn (Executor PyValues)
open SandboxQuota (ensureBinding ensureBinding_eq_ok)

variable {F : Type u}

/-! ## The provider -/

/-- A container, known by the credentials whose environment it was created with. -/
abbrev Container (F : Type u) := CodingEnvironment F

/-- `get_scope` that creates nothing: is there a connection?  `none` is an exception.
A connection in the cache of the process is taken as it is when the provisioner does not answer. -/
def findScope (container : Option (Container F)) (cached answers : Bool) : Option Bool :=
  if answers then some container.isSome
  else if cached then some true
  else none

/-- `get_scope` with `create_if_missing`: the container afterwards.  The provisioner
keeps a container that exists. -/
def createScope (container : Option (Container F)) (cached answers : Bool)
    (overrides : Option (CodingEnvironment F)) : Option (Option (Container F)) :=
  if cached ∧ (answers → container.isSome) then some container
  else
    match overrides with
    | none => none
    | some environment => if answers then some (some (container.getD environment)) else none

/-! ## The service -/

/-- The arguments of `ensure_ready` but the credentials, with what the call meets: a cached
connection, and answers of the provisioner to its three requests. -/
structure Request where
  key : SandboxKey
  policy : SandboxPolicy
  cached : Bool
  probeAnswers : Bool
  releaseAnswers : Bool
  createAnswers : Bool
  generation : Option String

/-- What a call leaves: the row that it returns with, unless it raises, and the container. -/
structure Outcome (F : Type u) where
  row : Option SandboxBinding
  container : Option (Container F)

def markSuspended (row : SandboxBinding) : SandboxBinding :=
  { row with status := .suspended, generation := none }

def touchRow (row : SandboxBinding) (generation : Option String) : SandboxBinding :=
  { row with generation := (generation.filter (· ≠ "")).or row.generation }

variable (py : PyValues F) (sha : Sha256)

/-- `credential_fingerprint` of a caller, as the column keeps it. -/
def fingerprintText (credentials : Option (CodingEnvironment F)) : Option String :=
  (credentials.bind (CodingEnvironment.fingerprint py sha)).map String.ofList

def rebuild (request : Request) (credentials : Option (CodingEnvironment F)) (row : SandboxBinding)
    (container : Option (Container F)) (cached : Bool) : Outcome F :=
  match createScope container cached request.createAnswers credentials with
  | none => { row := none, container := container }
  | some container =>
    { row := some
        { row with
          status := .active
          generation := request.generation
          credentialFingerprint :=
            (fingerprintText py sha credentials).or row.credentialFingerprint }
      container := container }

def resumeOrRaise (request : Request) (credentials : Option (CodingEnvironment F))
    (row : SandboxBinding) (container : Option (Container F)) (cached : Bool) : Outcome F :=
  if request.policy.resumePolicy = .confirm then { row := none, container := container }
  else rebuild py sha request credentials row container cached

/-- The caller has credentials, and others than the row. -/
def credentialChanged (credentials : Option (CodingEnvironment F)) (row : SandboxBinding) : Prop :=
  fingerprintText py sha credentials ≠ none ∧
    row.credentialFingerprint ≠ fingerprintText py sha credentials

instance (credentials : Option (CodingEnvironment F)) (row : SandboxBinding) :
    Decidable (credentialChanged py sha credentials row) :=
  inferInstanceAs (Decidable (_ ∧ _))

/-- `ensure_ready` on a row that exists. -/
def readyRow (request : Request) (credentials : Option (CodingEnvironment F))
    (row : SandboxBinding) (container : Option (Container F)) : Outcome F :=
  if row.status = .suspended then
    resumeOrRaise py sha request credentials row container request.cached
  else
    match findScope container request.cached request.probeAnswers with
    | none => { row := none, container := container }
    | some false =>
      resumeOrRaise py sha request credentials (markSuspended row) container false
    | some true =>
      if credentialChanged py sha credentials row then
        -- The old container is released, and the connection leaves the cache.
        if request.releaseAnswers then
          resumeOrRaise py sha request credentials (markSuspended row) none false
        else { row := none, container := container }
      else { row := some (touchRow row request.generation), container := container }

def ensureReady (limits : SandboxQuotaLimits) (rows : SandboxBindings)
    (container : Option (Container F)) (request : Request)
    (credentials : Option (CodingEnvironment F)) : Outcome F :=
  match ensureBinding rows limits request.key request.policy with
  | .error _ => { row := none, container := container }
  | .ok (.insert _ row) => rebuild py sha request credentials row container request.cached
  | .ok (.update _ row) => readyRow py sha request credentials row container

/-! ## The system -/

/-- The rows, the containers, the credentials and the environments that callers have built. -/
structure State (F : Type u) where
  rows : SandboxBindings
  containers : SandboxKey → Option (Container F)
  tables : Tables F
  environments : List (CodingEnvironment F)

def State.initial : State F where
  rows := .empty
  containers := fun _ => none
  tables := { credentials := .empty, providers := .empty }
  environments := []

inductive Action (F : Type u) where
  /-- A key that is given, or another one in its place. -/
  | upsertManual (owner : Option String) (executor : Executor) (provider apiKey : String)
      (baseUrl model : Option String) (extra : Extra F) (id : String) (now : Time)
  | upsertReference (owner : Option String) (executor : Executor) (modelProviderId : String)
      (keyMode : KeyMode) (apiKey : Option String) (model id : String) (now : Time)
  | deleteCredential (owner : Option String) (executor : Executor) (provider : Option String)
      (now : Time)
  | setProvider (providerId : String) (provider : ModelProvider)
  | deleteProvider (providerId : String)
  /-- `build_coding_environment` -/
  | build (uid : String) (executors : List Executor)
  /-- `ensure_ready`, with the credentials of an earlier `build` or with none. -/
  | ensureReady (request : Request) (built : Option Nat)
  | suspend (key : SandboxKey) (releaseAnswers : Bool)
  | loseContainer (key : SandboxKey)

/-- The credentials of a call; `none` if there is no such environment. -/
def State.credentialsOf (st : State F) : Option Nat → Option (Option (CodingEnvironment F))
  | none => some none
  | some n => (st.environments[n]?).map some

/-- The transaction of a call is committed, or rolled back. -/
def State.finish (st : State F) (key : SandboxKey) (outcome : Outcome F) : State F :=
  { st with
    rows := (outcome.row.map fun row => st.rows.upsert key row).getD st.rows
    containers := Function.update st.containers key outcome.container }

/-- `suspend` -/
def suspendOutcome (row : Option SandboxBinding) (container : Option (Container F))
    (releaseAnswers : Bool) : Outcome F :=
  match row with
  | none => { row := none, container := container }
  | some row =>
    if row.status = .suspended then { row := some row, container := container }
    else if releaseAnswers then { row := some (markSuspended row), container := none }
    else { row := none, container := container }

variable (limits : SandboxQuotaLimits)

def step (st : State F) : Action F → State F
  | .upsertManual owner executor provider apiKey baseUrl model extra id now =>
    { st with
      tables := (CodingCredentials.upsertManual st.tables owner executor provider apiKey baseUrl
        model extra id now).getD st.tables }
  | .upsertReference owner executor modelProviderId keyMode apiKey model id now =>
    { st with
      tables := (CodingCredentials.upsertReference st.tables owner executor modelProviderId
        keyMode apiKey model id now).getD st.tables }
  | .deleteCredential owner executor provider now =>
    { st with
      tables := (CodingCredentials.deleteCredential st.tables owner executor provider
        now).getD st.tables }
  | .setProvider providerId provider =>
    { st with
      tables := { st.tables with providers := st.tables.providers.upsert providerId provider } }
  | .deleteProvider providerId =>
    { st with
      tables := { st.tables with providers := st.tables.providers.erase providerId } }
  | .build uid executors =>
    { st with
      environments :=
        st.environments ++ (CodingEnvironment.build st.tables uid executors).toList }
  | .ensureReady request built =>
    match st.credentialsOf built with
    | none => st
    | some credentials =>
      st.finish request.key (ensureReady py sha limits st.rows (st.containers request.key)
        request credentials)
  | .suspend key releaseAnswers =>
    st.finish key (suspendOutcome (st.rows.get key) (st.containers key) releaseAnswers)
  | .loseContainer key => { st with containers := Function.update st.containers key none }

/-! ## What a call does -/

/-- The fingerprint that the row of a sandbox has. -/
def storedFingerprint (rows : SandboxBindings) (key : SandboxKey) : Option String :=
  (rows.get key).bind SandboxBinding.credentialFingerprint

/-- What a call leaves of a row with the fingerprint `stored` and of a container. -/
inductive Effect (request : Request) (credentials : Option (CodingEnvironment F))
    (stored : Option String) (container : Option (Container F)) : Outcome F → Prop where
  | raised {container' : Option (Container F)}
      (hcontainer : container' = none ∨ container' = container) :
      Effect request credentials stored container { row := none, container := container' }
  /-- The connection is one of the cache; there is no container. -/
  | blind {row : SandboxBinding} (hactive : row.status ≠ .suspended)
      (hcached : request.cached = true) (hanswers : request.createAnswers = false) :
      Effect request credentials stored container { row := some row, container := none }
  | created {row : SandboxBinding} {c : CodingEnvironment F} (hcredentials : credentials = some c)
      (hactive : row.status ≠ .suspended)
      (hfingerprint : row.credentialFingerprint = (fingerprintText py sha credentials).or stored)
      (hpolicy : stored ≠ none → request.policy.resumePolicy ≠ .confirm)
      (hanswers : request.createAnswers = true)
      (hgone : fingerprintText py sha credentials = none → container = none) :
      Effect request credentials stored container { row := some row, container := some c }
  | touched {row : SandboxBinding} (hactive : row.status ≠ .suspended)
      (hfingerprint : row.credentialFingerprint = stored)
      (hsame : fingerprintText py sha credentials = none ∨
        stored = fingerprintText py sha credentials)
      (hlive : container = none → request.cached = true ∧ request.probeAnswers = false) :
      Effect request credentials stored container { row := some row, container := container }

section Calls

variable {py sha limits}
variable {request : Request} {credentials : Option (CodingEnvironment F)} {row : SandboxBinding}
variable {container : Option (Container F)} {stored : Option String} {cached : Bool}

theorem createScope_none {answers : Bool} {container' : Option (Container F)}
    (h : createScope none cached answers credentials = some container') :
    (container' = none ∧ cached = true ∧ answers = false) ∨
      (answers = true ∧ ∃ c, credentials = some c ∧ container' = some c) := by
  unfold createScope at h
  by_cases hkept : cached = true ∧ (answers = true → (none : Option (Container F)).isSome = true)
  · rw [if_pos hkept] at h
    cases h
    exact .inl ⟨rfl, hkept.1, by simpa using hkept.2⟩
  · rw [if_neg hkept] at h
    cases credentials with
    | none => cases h
    | some c =>
      simp only at h
      split_ifs at h with hanswers
      cases h
      exact .inr ⟨hanswers, c, rfl, rfl⟩

/-- A rebuild where no container runs. -/
theorem rebuild_effect (hcached : cached = true → request.cached = true)
    (hpolicy : stored ≠ none → request.policy.resumePolicy ≠ .confirm)
    (hstored : row.credentialFingerprint = stored)
    (hgone : fingerprintText py sha credentials = none → container = none) :
    Effect py sha request credentials stored container
      (rebuild py sha request credentials row none cached) := by
  unfold rebuild
  cases hscope : createScope none cached request.createAnswers credentials with
  | none => exact .raised (.inl rfl)
  | some container' =>
    rcases createScope_none hscope with ⟨rfl, hkept, hanswers⟩ | ⟨hanswers, c, rfl, rfl⟩
    · exact .blind (by simp) (hcached hkept) hanswers
    · exact .created rfl (by simp) (by simp [hstored]) hpolicy hanswers hgone

theorem resumeOrRaise_effect (hcached : cached = true → request.cached = true)
    (hstored : row.credentialFingerprint = stored)
    (hgone : fingerprintText py sha credentials = none → container = none) :
    Effect py sha request credentials stored container
      (resumeOrRaise py sha request credentials row none cached) := by
  unfold resumeOrRaise
  split_ifs with hconfirm
  · exact .raised (.inl rfl)
  · exact rebuild_effect hcached (fun _ => hconfirm) hstored hgone

theorem readyRow_effect (hstored : row.credentialFingerprint = stored)
    (hsuspended : row.status = .suspended → container = none) :
    Effect py sha request credentials stored container
      (readyRow py sha request credentials row container) := by
  unfold readyRow
  by_cases hstatus : row.status = .suspended
  · rw [if_pos hstatus]
    obtain rfl := hsuspended hstatus
    exact resumeOrRaise_effect id hstored (fun _ => rfl)
  · rw [if_neg hstatus]
    cases hfind : findScope container request.cached request.probeAnswers with
    | none => exact .raised (.inr rfl)
    | some found =>
      unfold findScope at hfind
      cases found with
      | false =>
        have hnone : container = none := by
          split_ifs at hfind with hanswers
          · simpa using hfind
          · simp at hfind
        subst hnone
        exact resumeOrRaise_effect (by simp) hstored (fun _ => rfl)
      | true =>
        simp only
        split_ifs with hchanged hrelease
        · exact resumeOrRaise_effect (by simp) hstored (fun hnone => absurd hnone hchanged.1)
        · exact .raised (.inr rfl)
        · refine .touched hstatus hstored ?_ ?_
          · by_cases hnone : fingerprintText py sha credentials = none
            · exact .inl hnone
            · right
              by_contra hne
              exact hchanged ⟨hnone, hstored ▸ hne⟩
          · rintro rfl
            split_ifs at hfind with hanswers hcached
            · simp at hfind
            · exact ⟨hcached, by simpa using hanswers⟩

theorem ensureReady_cases {rows : SandboxBindings} (hbound : ∀ c, container = some c →
      ∃ row, rows.get request.key = some row ∧ row.status ≠ .suspended) :
    Effect py sha request credentials (storedFingerprint rows request.key) container
      (ensureReady py sha limits rows container request credentials) := by
  unfold ensureReady
  split
  · exact .raised (.inr rfl)
  · next key row hbinding =>
    rcases ensureBinding_eq_ok hbinding with ⟨hnone, hwrite, -, -⟩ | ⟨row', -, hwrite⟩
    · cases hwrite
      have hgone : container = none := by
        cases container with
        | none => rfl
        | some c =>
          obtain ⟨row, hrow, -⟩ := hbound c rfl
          rw [hnone] at hrow
          cases hrow
      subst hgone
      have hstored : storedFingerprint rows request.key = none := by
        rw [storedFingerprint, hnone, Option.bind_none]
      rw [hstored]
      exact rebuild_effect id (fun h => absurd rfl h) rfl (fun _ => rfl)
    · cases hwrite
  · next key row hbinding =>
    rcases ensureBinding_eq_ok hbinding with ⟨-, hwrite, -, -⟩ | ⟨row', hrow, hwrite⟩
    · cases hwrite
    · cases hwrite
      have hstored : storedFingerprint rows request.key = row'.credentialFingerprint := by
        rw [storedFingerprint, hrow, Option.bind_some]
      rw [hstored]
      have hkept : (row'.applyPolicy request.policy).credentialFingerprint =
          row'.credentialFingerprint := rfl
      apply readyRow_effect hkept
      intro hsuspended
      cases container with
      | none => rfl
      | some c =>
        obtain ⟨row'', hrow', hactive⟩ := hbound c rfl
        rw [hrow] at hrow'
        cases hrow'
        exact absurd hsuspended hactive

end Calls

/-! ## The invariant -/

/-- A container that runs belongs to an active row, and the fingerprint of the row, if it has one,
is the fingerprint of the credentials that the container was created from. -/
def ReadyInv (st : State F) : Prop :=
  ∀ key c, st.containers key = some c → ∃ row, st.rows.get key = some row ∧
    row.status ≠ .suspended ∧ (row.credentialFingerprint = none ∨
        row.credentialFingerprint = fingerprintText py sha (some c))

theorem readyInv_initial : ReadyInv py sha (State.initial : State F) :=
  fun _ _ h => nomatch h

/-- A call that has built an environment without credentials creates no container for a row with a
fingerprint, and the keys of the credentials of a call agree with those that the running container
was created from. -/
def Meets (st : State F) : Action F → Prop
  | .ensureReady request built =>
    ∀ c, st.credentialsOf built = some (some c) →
      (c.resolved = [] → st.containers request.key = none →
        request.policy.resumePolicy ≠ .confirm → request.createAnswers = true →
          storedFingerprint st.rows request.key = none) ∧
      ∀ live, st.containers request.key = some live →
        live.fingerprint py sha = c.fingerprint py sha → live.KeysAgree py sha c
  | _ => True

section Steps

variable {py sha limits}
variable {st : State F}

theorem ReadyInv.bound (h : ReadyInv py sha st) (key : SandboxKey) :
    ∀ c, st.containers key = some c →
      ∃ row, st.rows.get key = some row ∧ row.status ≠ .suspended := by
  intro c hc
  obtain ⟨row, hrow, hactive, -⟩ := h key c hc
  exact ⟨row, hrow, hactive⟩

variable {key : SandboxKey}

theorem ReadyInv.stored (h : ReadyInv py sha st) {c : Container F}
    (hc : st.containers key = some c) :
    storedFingerprint st.rows key = none ∨
      storedFingerprint st.rows key = fingerprintText py sha (some c) := by
  obtain ⟨row, hrow, -, hfingerprint⟩ := h key c hc
  rw [storedFingerprint, hrow, Option.bind_some]
  exact hfingerprint

/-- It is enough to look at the sandbox of the call. -/
theorem ReadyInv.finish (h : ReadyInv py sha st) {outcome : Outcome F}
    (hkey : ∀ c, outcome.container = some c → ∃ row,
      (outcome.row.or (st.rows.get key)) = some row ∧ row.status ≠ .suspended ∧
        (row.credentialFingerprint = none ∨
          row.credentialFingerprint = fingerprintText py sha (some c))) :
    ReadyInv py sha (st.finish key outcome) := by
  have hget : ∀ key', (st.finish key outcome).rows.get key' =
      if key' = key then outcome.row.or (st.rows.get key) else st.rows.get key' := by
    intro key'
    unfold State.finish
    cases outcome.row with
    | none =>
      simp only [Option.map_none, Option.getD_none, Option.none_or]
      split_ifs with heq
      · rw [heq]
      · rfl
    | some row => simp [Table.get_upsert]
  intro key' c hc
  rw [hget key']
  by_cases heq : key' = key
  · subst heq
    rw [if_pos rfl]
    exact hkey c (by simpa [State.finish] using hc)
  · rw [if_neg heq]
    exact h key' c (by simpa [State.finish, heq] using hc)

variable {c : CodingEnvironment F}

theorem fingerprint_eq_none_iff :
    c.fingerprint py sha = none ↔ c.resolved = [] := by
  unfold CodingEnvironment.fingerprint fingerprintOf
  split_ifs with hnil <;> simp [hnil]

theorem fingerprintText_eq_none_iff :
    fingerprintText py sha (some c) = none ↔ c.resolved = [] := by
  rw [fingerprintText, Option.bind_some, Option.map_eq_none_iff, fingerprint_eq_none_iff]

theorem fingerprint_of_text {c' : CodingEnvironment F}
    (h : fingerprintText py sha (some c) = fingerprintText py sha (some c')) :
    c.fingerprint py sha = c'.fingerprint py sha :=
  Option.map_injective (fun _ _ => String.ofList_injective) h

theorem ReadyInv.ensureReady (h : ReadyInv py sha st) {request : Request} {built : Option Nat}
    {credentials : Option (CodingEnvironment F)}
    (hcredentials : st.credentialsOf built = some credentials)
    (hmeets : Meets py sha st (.ensureReady request built)) :
    ReadyInv py sha (st.finish request.key (SandboxReadiness.ensureReady py sha limits st.rows
      (st.containers request.key) request credentials)) := by
  have heffect : Effect py sha request credentials (storedFingerprint st.rows request.key)
      (st.containers request.key) (SandboxReadiness.ensureReady py sha limits st.rows
        (st.containers request.key) request credentials) := ensureReady_cases (h.bound request.key)
  apply h.finish
  generalize SandboxReadiness.ensureReady py sha limits st.rows (st.containers request.key) request
    credentials = outcome at heffect ⊢
  cases heffect with
  | raised hcontainer =>
    intro c hc
    rcases hcontainer with rfl | rfl
    · cases hc
    · exact h request.key c hc
  | blind hactive hcached hanswers =>
    intro c hc
    cases hc
  | @created row c hc hactive hfingerprint hpolicy hanswers hgone =>
    intro c' hc'
    cases hc'
    subst hc
    refine ⟨row, rfl, hactive, ?_⟩
    rw [hfingerprint]
    cases htext : fingerprintText py sha (some c) with
    | some f => exact .inr rfl
    | none =>
      left
      rw [Option.none_or]
      by_contra hne
      exact hne ((hmeets c hcredentials).1 (fingerprintText_eq_none_iff.mp htext) (hgone htext)
        (hpolicy hne) hanswers)
  | @touched row hactive hfingerprint hsame hlive =>
    intro c hc
    refine ⟨row, rfl, hactive, ?_⟩
    rw [hfingerprint]
    exact h.stored hc

theorem ReadyInv.suspend (h : ReadyInv py sha st) (key : SandboxKey) (releaseAnswers : Bool) :
    ReadyInv py sha
      (st.finish key (suspendOutcome (st.rows.get key) (st.containers key) releaseAnswers)) := by
  apply h.finish
  intro c hc
  unfold suspendOutcome at hc ⊢
  cases hrow : st.rows.get key with
  | none =>
    rw [hrow] at hc
    obtain ⟨row, hget, -⟩ := h key c hc
    rw [hrow] at hget
    cases hget
  | some row =>
    simp only [hrow] at hc ⊢
    obtain ⟨row', hget, hactive, hfingerprint⟩ : ∃ row', st.rows.get key = some row' ∧
        row'.status ≠ .suspended ∧ (row'.credentialFingerprint = none ∨
          row'.credentialFingerprint = fingerprintText py sha (some c)) := by
      apply h key c
      split_ifs at hc with hstatus hrelease
      · exact hc
      · exact hc
    rw [hrow] at hget
    cases hget
    rw [if_neg hactive] at hc ⊢
    split_ifs at hc ⊢ with hrelease
    exact ⟨row, rfl, hactive, hfingerprint⟩

theorem step_readyInv (a : Action F) (hmeets : Meets py sha st a) (h : ReadyInv py sha st) :
    ReadyInv py sha (step py sha limits st a) := by
  cases a with
  | upsertManual | upsertReference | deleteCredential | setProvider | deleteProvider | build =>
    exact h
  | ensureReady request built =>
    cases hcredentials : st.credentialsOf built with
    | none =>
      simp only [step, hcredentials]
      exact h
    | some credentials =>
      simp only [step, hcredentials]
      exact h.ensureReady hcredentials hmeets
  | suspend key releaseAnswers => exact h.suspend key releaseAnswers
  | loseContainer key =>
    intro key' c hc
    apply h key' c
    simp only [step, Function.update_apply] at hc
    split_ifs at hc
    exact hc

end Steps

/-! ## Runs -/

/-- The container behind the connection of a call was created with the environment of the call, or
there is none and the connection is one of the cache that the provisioner did not answer for. -/
def RunsWith (codexUrl : String → String) (request : Request) (c : CodingEnvironment F)
    (container : Option (Container F)) : Prop :=
  (∃ live, container = some live ∧ live.env py codexUrl = c.env py codexUrl) ∨
    container = none ∧ request.cached = true ∧
      (request.probeAnswers = false ∨ request.createAnswers = false)

theorem container_of_returns {py : PyValues F} {sha : Sha256} {limits : SandboxQuotaLimits}
    {st : State F} (h : ReadyInv py sha st) {request : Request} {n : Nat}
    {c : CodingEnvironment F} (hbuilt : st.environments[n]? = some c) {f : List Char}
    (hf : c.fingerprint py sha = some f)
    (hmeets : Meets py sha st (.ensureReady request (some n))) {row : SandboxBinding}
    (hreturns : (ensureReady py sha limits st.rows (st.containers request.key) request
      (some c)).row = some row) (codexUrl : String → String) :
    RunsWith py codexUrl request c (ensureReady py sha limits st.rows (st.containers request.key)
      request (some c)).container := by
  have hcredentials : st.credentialsOf (some n) = some (some c) := by
    simp [State.credentialsOf, hbuilt]
  have htext : fingerprintText py sha (some c) ≠ none := by
    simp [fingerprintText, hf]
  have heffect : Effect py sha request (some c) (storedFingerprint st.rows request.key)
      (st.containers request.key) (ensureReady py sha limits st.rows (st.containers request.key)
        request (some c)) := ensureReady_cases (h.bound request.key)
  generalize ensureReady py sha limits st.rows (st.containers request.key) request (some c) =
    outcome at heffect hreturns ⊢
  cases heffect with
  | raised => cases hreturns
  | blind hactive hcached hanswers => exact .inr ⟨rfl, hcached, .inr hanswers⟩
  | created hc =>
    cases hc
    exact .inl ⟨c, rfl, rfl⟩
  | touched hactive hfingerprint hsame hlive =>
    simp only
    cases hcontainer : st.containers request.key with
    | none =>
      obtain ⟨hcached, hprobe⟩ := hlive hcontainer
      exact .inr ⟨rfl, hcached, .inl hprobe⟩
    | some live =>
      have hstored := hsame.resolve_left htext
      have heq : live.fingerprint py sha = c.fingerprint py sha := by
        rcases h.stored hcontainer with hnone | hlivetext
        · rw [hnone] at hstored
          exact absurd hstored.symm htext
        · exact fingerprint_of_text (hlivetext.symm.trans hstored)
      have hkeys := (hmeets c hcredentials).2 live hcontainer heq
      exact .inl ⟨live, rfl, (CodingEnvironment.env_eq_iff (heq.trans hf) hf).mpr hkeys⟩

/-- In every run whose calls meet the conditions, a call with credentials that returns leaves a
container that was created with exactly the environment of the call; and one fingerprint stands for
one environment exactly if the keys of credentials with the same hashed text agree. -/
theorem created_with_environment_of_run (py : PyValues F) (sha : Sha256)
    (codexUrl : String → String) (limits : SandboxQuotaLimits) :
    (∀ (as : List (Action F)) (request : Request) (n : Nat) (c : CodingEnvironment F)
      (f : List Char) (row : SandboxBinding),
      Transition.Guarded (step py sha limits) (Meets py sha) State.initial
        (as ++ [.ensureReady request (some n)]) →
      let st := Transition.exec (step py sha limits) State.initial as
      st.environments[n]? = some c → c.fingerprint py sha = some f →
      (ensureReady py sha limits st.rows (st.containers request.key) request (some c)).row =
        some row →
      RunsWith py codexUrl request c
        ((step py sha limits st (.ensureReady request (some n))).containers request.key)) ∧
    ∀ (c c' : CodingEnvironment F) (f : List Char), c.fingerprint py sha = some f →
      c'.fingerprint py sha = some f →
      (c.env py codexUrl = c'.env py codexUrl ↔ c.KeysAgree py sha c') := by
  constructor
  · intro as request n c f row hguarded st hbuilt hf hreturns
    obtain ⟨hrun, hlast, -⟩ := (Transition.guarded_append _ _ _ _).mp hguarded
    have hinv : ReadyInv py sha st :=
      Transition.exec_invariant_of_guarded _ (fun st a hmeets h => step_readyInv a hmeets h)
        (readyInv_initial py sha) hrun
    have hcontainer := container_of_returns hinv hbuilt hf hlast hreturns codexUrl
    have hcredentials : st.credentialsOf (some n) = some (some c) := by
      simp [State.credentialsOf, hbuilt]
    simpa [step, hcredentials, State.finish] using hcontainer
  · intro c c' f hf hf'
    exact CodingEnvironment.env_eq_iff hf hf'

/-! ## Sample runs -/

/-- The hashed text of the sample credentials. -/
def sampleText : List Char :=
  "\x7b\"base_url\": \"\", \"executor\": \"opencode\", \"extra\": \x7b\x7d, ".toList ++
    "\"model\": \"\", \"provider\": \"openai\", \"secret_version\": 1\x7d".toList

def sampleDigest : List Char :=
  "2b94f2f9e0edada404ccc4597001f76b964873d438ad446f83944ce7064990bc".toList

def sampleDigests : List Char :=
  "86bbc783a87e1fd7d9e80e95a65ff416f68c5323f9834e15d571907bf99b7021".toList

/-- SHA-256 on the two texts that are hashed, and a text of another form on the others. -/
def sampleHexdigest (t : List Char) : List Char :=
  if t = sampleText then sampleDigest
  else if t = sampleDigest then sampleDigests
  else '-' :: pairedChars t

def sampleSha : Sha256 where
  hexdigest := sampleHexdigest
  injective := hexdigestWith_injective (by decide +kernel) (by decide +kernel) (by decide +kernel)
  noBar := bar_notMem_hexdigestWith (by decide +kernel) (by decide +kernel)
  ne_nil := hexdigestWith_ne_nil (by decide +kernel) (by decide +kernel)

def samplePy : PyValues Unit where
  float := Json.FloatText.zero
  isZero _ := true
  render _ := ""

def sampleCredential (apiKey : String) : Resolved Unit where
  executor := .opencode
  provider := "openai"
  baseUrl := none
  model := none
  apiKey := apiKey
  extra := emptyExtra
  secretVersion := 1
  source := .manual

def sampleEnvironment (apiKey : String) : CodingEnvironment Unit where
  resolved := [sampleCredential apiKey]
  onePerTool := by
    intro r hr r' hr' _
    rw [List.mem_singleton.mp hr, List.mem_singleton.mp hr']
  proper := by
    intro r hr keyMode hmode
    rw [List.mem_singleton.mp hr] at hmode
    cases hmode

def sampleLimits : SandboxQuotaLimits := ⟨3, 1⟩

def sampleRequest : Request where
  key := { uid := "u", agentSlug := "coder", projectId := "p" }
  policy := { mode := .dedicated, lifecycle := .persistent }
  cached := false
  probeAnswers := true
  releaseAnswers := true
  createAnswers := true
  generation := some "g"

/-- A global key, a key of the user, a first call, and the key of the user is deleted. -/
def deletedKeyRun : List (Action Unit) :=
  [.upsertManual none .opencode "openai" "key-b" none none emptyExtra "c1" 1,
    .upsertManual (some "u") .opencode "openai" "key-a" none none emptyExtra "c2" 2,
    .build "u" [.opencode],
    .ensureReady sampleRequest (some 0),
    .deleteCredential (some "u") .opencode none 3,
    .build "u" [.opencode]]

abbrev sampleState (as : List (Action Unit)) : State Unit :=
  Transition.exec (step samplePy sampleSha sampleLimits) State.initial as

theorem fingerprint_sampleEnvironment :
    (sampleEnvironment "key-a").fingerprint samplePy sampleSha = some sampleDigests := by
  decide +kernel

theorem outcome_deletedKeyRun :
    (fun outcome : Outcome Unit => (outcome.row.isSome,
      outcome.container.bind fun c => c.env samplePy id "OPENCODE_API_KEY"))
      (ensureReady samplePy sampleSha sampleLimits (sampleState deletedKeyRun).rows
        ((sampleState deletedKeyRun).containers sampleRequest.key) sampleRequest
        (some (sampleEnvironment "key-b"))) = (true, some "key-a") := by
  decide +kernel

/-- The key of the user is deleted and the global one takes its place.  Their fingerprints are the
same, so a call with the global key returns with the container that has the deleted one. -/
theorem created_with_environment_fails :
    (¬ ∀ (as : List (Action Unit)) (request : Request) (n : Nat) (c : CodingEnvironment Unit)
      (f : List Char) (row : SandboxBinding),
      let st := sampleState as
      st.environments[n]? = some c → c.fingerprint samplePy sampleSha = some f →
      (ensureReady samplePy sampleSha sampleLimits st.rows (st.containers request.key) request
        (some c)).row = some row →
      RunsWith samplePy id request c ((step samplePy sampleSha sampleLimits st
        (.ensureReady request (some n))).containers request.key)) ∧
    ¬ ∀ (c c' : CodingEnvironment Unit) (f : List Char), c.fingerprint samplePy sampleSha = some f →
      c'.fingerprint samplePy sampleSha = some f → c.env samplePy id = c'.env samplePy id := by
  have hfingerprint : (sampleEnvironment "key-b").fingerprint samplePy sampleSha =
      some sampleDigests := by
    rw [← fingerprint_sampleEnvironment]
    simp only [CodingEnvironment.fingerprint, fingerprintOf, sampleEnvironment, List.map_cons,
      List.map_nil, Resolved.fingerprint, Resolved.canonical, Resolved.payload, Resolved.keyHash,
      Resolved.fingerprintExtra, sampleCredential, reduceCtorEq, if_false]
  constructor
  · intro h
    have hbuilt : (sampleState deletedKeyRun).environments[1]? =
        some (sampleEnvironment "key-b") := by rfl
    obtain ⟨hreturns, hkey⟩ := Prod.mk.inj outcome_deletedKeyRun
    obtain ⟨row, hrow⟩ := Option.isSome_iff_exists.mp hreturns
    have hruns := h deletedKeyRun sampleRequest 1 (sampleEnvironment "key-b") sampleDigests row
      hbuilt hfingerprint hrow
    have hcredentials : (sampleState deletedKeyRun).credentialsOf (some 1) =
        some (some (sampleEnvironment "key-b")) := by
      rw [State.credentialsOf, hbuilt, Option.map_some]
    simp only [step, hcredentials, State.finish, Function.update_self] at hruns
    rcases hruns with ⟨live, hlive, henv⟩ | ⟨hnone, -⟩
    · rw [hlive, Option.bind_some, henv] at hkey
      have hkey' : some "key-b" = some "key-a" := hkey
      simp at hkey'
    · rw [hnone] at hkey
      cases hkey
  · intro h
    have henv := h _ _ _ fingerprint_sampleEnvironment hfingerprint
    have hkey : some "key-a" = some "key-b" := congrFun henv "OPENCODE_API_KEY"
    simp at hkey

/-- A call after the container was lost. -/
def lostContainerRun : List (Action Unit) :=
  [.upsertManual (some "u") .opencode "openai" "key-a" none none emptyExtra "c1" 1,
    .build "u" [.opencode],
    .ensureReady sampleRequest (some 0),
    .loseContainer sampleRequest.key]

theorem meets_sampleRequest {st : State Unit} {c : CodingEnvironment Unit}
    (hbuilt : st.environments[0]? = some c) (hne : c.resolved ≠ [])
    (hlive : ∀ live, st.containers sampleRequest.key = some live → live = c) :
    Meets samplePy sampleSha st (.ensureReady sampleRequest (some 0)) := by
  intro c' hc'
  simp only [State.credentialsOf, hbuilt, Option.map_some, Option.some.injEq] at hc'
  subst hc'
  refine ⟨fun hnil => absurd hnil hne, ?_⟩
  intro live hcontainer _
  rw [hlive live hcontainer]
  intro r hr r' hr' hcanonical
  have hexecutor := (Resolved.canonical_injective sampleSha hcanonical).1
  rw [c.onePerTool r hr r' hr' hexecutor]

theorem created_with_environment_lostContainer :
    RunsWith samplePy id sampleRequest (sampleEnvironment "key-a")
      ((step samplePy sampleSha sampleLimits (sampleState lostContainerRun)
        (.ensureReady sampleRequest (some 0))).containers sampleRequest.key) := by
  have hreturns : (ensureReady samplePy sampleSha sampleLimits (sampleState lostContainerRun).rows
      ((sampleState lostContainerRun).containers sampleRequest.key) sampleRequest
      (some (sampleEnvironment "key-a"))).row.isSome = true := by decide +kernel
  have hbuilt : ∀ as, as ∈ [lostContainerRun.take 2, lostContainerRun] →
      (sampleState as).environments[0]? = some (sampleEnvironment "key-a") ∧
        (sampleState as).containers sampleRequest.key = none := by
    intro as has
    simp only [List.mem_cons, List.not_mem_nil, or_false] at has
    rcases has with rfl | rfl
    · exact ⟨by rfl, by rfl⟩
    · exact ⟨by rfl, by rfl⟩
  have hmeets : ∀ as, as ∈ [lostContainerRun.take 2, lostContainerRun] →
      Meets samplePy sampleSha (sampleState as) (.ensureReady sampleRequest (some 0)) := by
    intro as has
    refine meets_sampleRequest (hbuilt as has).1 (by simp [sampleEnvironment]) ?_
    intro live hlive
    rw [(hbuilt as has).2] at hlive
    cases hlive
  obtain ⟨row, hrow⟩ := Option.isSome_iff_exists.mp hreturns
  have hguarded : Transition.Guarded (step samplePy sampleSha sampleLimits)
      (Meets samplePy sampleSha) State.initial
      (lostContainerRun ++ [.ensureReady sampleRequest (some 0)]) :=
    ⟨trivial, trivial, hmeets (lostContainerRun.take 2) (by simp), trivial,
      hmeets lostContainerRun (by simp), trivial⟩
  exact (created_with_environment_of_run samplePy sampleSha id sampleLimits).1 lostContainerRun
    sampleRequest 0 (sampleEnvironment "key-a") sampleDigests row hguarded
    (hbuilt _ (by simp)).1
    fingerprint_sampleEnvironment hrow

end Yuanlei.SandboxReadiness
