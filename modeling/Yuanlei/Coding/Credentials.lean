import Yuanlei.Lib.JsonRoundTrip
import Yuanlei.AgentRun.Rows
import Yuanlei.Coding.TurnOutput
import Mathlib.Data.Char
import Mathlib.Data.List.Lex

/-!
# Coding credentials

The credentials of the coding tools, of users and of the installation, how a call resolves them,
and the environment and the fingerprint that it builds from them.  A stored key is modelled by its
plain text.  SHA-256, the text of values that are no strings and the normal form of a URL are
parameters.

Main definitions:

- `resolve`: a credential of the user, or else a global one.
- `Resolved.fingerprint`: the hash that stands for a credential.
-/

universe u

namespace Yuanlei.CodingCredentials

open CodingTurn (Executor PyValues Fields fieldOf orElse strOf)

variable {F : Type u}

/-! ## Parameters -/

/-- The hexadecimal digest of a text.  It has no bar in it and is not empty; that different texts
have different digests is the assumption of the development. -/
structure Sha256 where
  hexdigest : List Char → List Char
  injective : Function.Injective hexdigest
  noBar : ∀ t, '|' ∉ hexdigest t
  ne_nil : ∀ t, hexdigest t ≠ []

/-! ## A function of this form -/

/-- A text without bars for each text. -/
def pairedChars (t : List Char) : List Char :=
  t.flatMap fun ch => if ch = '|' then ['-', 'b'] else ['+', ch]

theorem pairedChars_injective : Function.Injective pairedChars := by
  intro t
  induction t with
  | nil =>
    intro t' h
    cases t' with
    | nil => rfl
    | cons ch' t' =>
      unfold pairedChars at h
      rw [List.flatMap_cons] at h
      split_ifs at h <;> cases h
  | cons ch t ih =>
    intro t' h
    cases t' with
    | nil =>
      unfold pairedChars at h
      rw [List.flatMap_cons] at h
      split_ifs at h <;> cases h
    | cons ch' t' =>
      unfold pairedChars at h
      rw [List.flatMap_cons, List.flatMap_cons] at h
      split_ifs at h with hbar hbar' hbar'
      · rw [hbar, hbar', ih (List.append_cancel_left h)]
      · simp at h
      · simp at h
      · simp only [List.cons_append, List.nil_append, List.cons.injEq] at h
        rw [h.2.1, ih h.2.2]

/-- Two digests that are given, and texts of another form for all other texts. -/
def hexdigestWith (t₁ d₁ t₂ d₂ t : List Char) : List Char :=
  if t = t₁ then d₁
  else if t = t₂ then d₂
  else '-' :: pairedChars t

section HexdigestWith

variable {t₁ d₁ t₂ d₂ : List Char}

theorem hexdigestWith_injective (h : d₁ ≠ d₂) (h₁ : d₁.head? ≠ some '-')
    (h₂ : d₂.head? ≠ some '-') : Function.Injective (hexdigestWith t₁ d₁ t₂ d₂) := by
  have hhead₁ : ∀ t, d₁ ≠ '-' :: t := by
    intro t heq
    exact h₁ (by rw [heq]; rfl)
  have hhead₂ : ∀ t, d₂ ≠ '-' :: t := by
    intro t heq
    exact h₂ (by rw [heq]; rfl)
  intro t t' heq
  unfold hexdigestWith at heq
  split_ifs at heq with ht₁ ht'₁ ht'₂ ht₂ ht'₁ ht'₂ ht'₁ ht'₂
  · rw [ht₁, ht'₁]
  · exact absurd heq h
  · exact absurd heq (hhead₁ _)
  · exact absurd heq.symm h
  · rw [ht₂, ht'₂]
  · exact absurd heq (hhead₂ _)
  · exact absurd heq.symm (hhead₁ _)
  · exact absurd heq.symm (hhead₂ _)
  · exact pairedChars_injective (List.cons.inj heq).2

theorem bar_notMem_hexdigestWith (h₁ : '|' ∉ d₁) (h₂ : '|' ∉ d₂) (t : List Char) :
    '|' ∉ hexdigestWith t₁ d₁ t₂ d₂ t := by
  unfold hexdigestWith
  split_ifs
  · exact h₁
  · exact h₂
  · simp only [List.mem_cons, not_or]
    constructor
    · decide
    · unfold pairedChars
      rw [List.mem_flatMap]
      rintro ⟨ch, -, hbar⟩
      split_ifs at hbar with heq
      · simp at hbar
      · simp [Ne.symm heq] at hbar

theorem hexdigestWith_ne_nil (h₁ : d₁ ≠ []) (h₂ : d₂ ≠ []) (t : List Char) :
    hexdigestWith t₁ d₁ t₂ d₂ t ≠ [] := by
  unfold hexdigestWith
  split_ifs
  · exact h₁
  · exact h₂
  · simp

end HexdigestWith

def keyFingerprint (sha : Sha256) (apiKey : String) : List Char :=
  (sha.hexdigest apiKey.toList).take 16

/-- A dictionary as a JSON column keeps it: the order of the keys is a normal form. -/
structure Extra (F : Type u) where
  dict : Json.Dict F
  sorted : dict.toJson.sortKeys = dict.toJson

/-! ## Rows -/

inductive KeyMode where
  | inherit
  | custom
deriving DecidableEq

def KeyMode.name : KeyMode → String
  | inherit => "inherit"
  | custom => "custom"

/-- `source` with `key_mode`. -/
inductive CredentialSource where
  | manual
  | modelProvider (keyMode : KeyMode)
deriving DecidableEq

/-- The columns of the two unique indexes; a global credential has no owner. -/
structure CredentialKey where
  owner : Option String
  executor : Executor
  provider : String
deriving DecidableEq

structure CodingCredential (F : Type u) where
  id : String
  source : CredentialSource
  baseUrl : Option String
  model : Option String
  /-- The text behind `api_key_cipher`. -/
  apiKey : Option String
  extra : Extra F
  active : Bool
  version : Nat
  createdAt : Time
  updatedAt : Time

structure ModelProvider where
  isEnabled : Bool
  /-- The enabled chat models with their `base_url_override`. -/
  chatModels : List (String × Option String)
  baseUrl : String
  /-- `resolve_api_key` -/
  apiKey : Option String
deriving DecidableEq

structure Tables (F : Type u) where
  credentials : Table CredentialKey (CodingCredential F)
  providers : Table String ModelProvider

/-- `(text or "").strip() or None` -/
def stripped (text : Option String) : Option String :=
  let text := PyText.strip (text.getD "")
  if text = "" then none else some text

/-! ## Writes -/

def emptyExtra : Extra F where
  dict := Json.Dict.empty
  sorted := by simp [Json.Dict.toJson, Json.Dict.empty, Json.sortKeys, Json.sortFields]

/-- What a write sets in a row. -/
structure CredentialWrite (F : Type u) where
  source : CredentialSource
  baseUrl : Option String
  model : Option String
  apiKey : Option String
  extra : Extra F

/-- `CodingCredentialRepository.upsert`: a row that exists gets the next version. -/
def upsertRow (old : Option (CodingCredential F)) (write : CredentialWrite F) (id : String)
    (now : Time) : CodingCredential F where
  id := (old.map CodingCredential.id).getD id
  source := write.source
  baseUrl := write.baseUrl
  model := write.model
  apiKey := write.apiKey
  extra := write.extra
  active := true
  version := (old.map CodingCredential.version).getD 0 + 1
  createdAt := (old.map CodingCredential.createdAt).getD now
  updatedAt := now

/-- What is left of a row that is deleted. -/
def CodingCredential.deleted (row : CodingCredential F) (now : Time) : CodingCredential F :=
  { row with active := false, apiKey := none, version := row.version + 1, updatedAt := now }

/-- `upsert` and `deactivate_other_executor_rows` -/
def Tables.upsert (db : Tables F) (key : CredentialKey) (write : CredentialWrite F) (id : String)
    (now : Time) : Tables F :=
  let row := upsertRow (db.credentials.get key) write id now
  { db with
    credentials := (db.credentials.upsert key row).mapRows fun key' other =>
      if key'.owner = key.owner ∧ key'.executor = key.executor ∧ other.active ∧ other.id ≠ row.id
      then other.deleted now
      else other }

/-- `CodingCredentialService.upsert` of a key that is given; `none` is an error. -/
def upsertManual (db : Tables F) (owner : Option String) (executor : Executor) (provider : String)
    (apiKey : String) (baseUrl model : Option String) (extra : Extra F) (id : String) (now : Time) :
    Option (Tables F) :=
  let provider := PyText.strip provider
  if provider = "" ∨ apiKey = "" then none
  else
    some (db.upsert { owner := owner, executor := executor, provider := provider }
      { source := .manual
        baseUrl := stripped baseUrl
        model := stripped model
        apiKey := some apiKey
        extra := extra } id now)

/-- `CodingCredentialService.upsert` of a reference to a model provider. -/
def upsertReference (db : Tables F) (owner : Option String) (executor : Executor)
    (modelProviderId : String) (keyMode : KeyMode) (apiKey : Option String) (model : String)
    (id : String) (now : Time) : Option (Tables F) :=
  let providerId := PyText.strip modelProviderId
  match db.providers.get providerId with
  | none => none
  | some provider =>
    let modelId := PyText.strip model
    let hasKey := apiKey.any (· ≠ "")
    if provider.isEnabled ∧ modelId ∈ provider.chatModels.map Prod.fst ∧
        (keyMode = .custom ↔ hasKey) then
      some (db.upsert { owner := owner, executor := executor, provider := providerId }
        { source := .modelProvider keyMode
          baseUrl := none
          model := some modelId
          apiKey := if keyMode = .custom then apiKey else none
          extra := emptyExtra } id now)
    else none

/-! ## Resolving -/

/-- The order in which the latest row is chosen. -/
def CodingCredential.later (row other : CodingCredential F) : Bool :=
  decide (other.updatedAt < row.updatedAt) ||
    other.updatedAt == row.updatedAt &&
      (decide (other.createdAt < row.createdAt) ||
        other.createdAt == row.createdAt && decide (other.id < row.id))

/-- `list_active` for one tool, and the latest of its rows. -/
def Tables.latest (db : Tables F) (owner : Option String) (executor : Executor) :
    Option (CredentialKey × CodingCredential F) :=
  (db.credentials.rows.filter fun e =>
    e.1.owner = owner ∧ e.1.executor = executor ∧ e.2.active).foldl
      (fun best e =>
        match best with
        | none => some e
        | some b => if e.2.later b.2 then some e else some b) none

/-- `delete`; `none` where nothing is deleted. -/
def deleteCredential (db : Tables F) (owner : Option String) (executor : Executor)
    (provider : Option String) (now : Time) : Option (Tables F) :=
  let found :=
    match provider with
    | none => db.latest owner executor
    | some provider =>
      let key : CredentialKey := { owner := owner, executor := executor, provider := provider }
      ((db.credentials.get key).filter CodingCredential.active).map fun row => (key, row)
  found.map fun e =>
    { db with credentials := db.credentials.modify e.1 fun row => row.deleted now }

structure Resolved (F : Type u) where
  executor : Executor
  provider : String
  baseUrl : Option String
  model : Option String
  apiKey : String
  extra : Extra F
  /-- The version of the row. -/
  secretVersion : Nat
  source : CredentialSource

inductive ResolveError where
  | missing
  | unavailable (reason : String)
  | notConfigured
deriving DecidableEq

/-- `_reference_context` and `_resolve_reference` -/
def resolveReference (db : Tables F) (key : CredentialKey) (row : CodingCredential F)
    (keyMode : KeyMode) : Except ResolveError (Resolved F) :=
  match db.providers.get key.provider with
  | none => .error (.unavailable "provider_missing")
  | some provider =>
    if provider.isEnabled = false then .error (.unavailable "provider_disabled")
    else
      match provider.chatModels.reverse.lookup (PyText.strip (row.model.getD "")) with
      | none => .error (.unavailable "model_not_enabled")
      | some baseUrlOverride =>
        let found := if keyMode = .custom then row.apiKey else provider.apiKey
        match found.filter (· ≠ "") with
        | none => .error (.unavailable
            (if keyMode = .custom then "credential_key_missing" else "provider_key_missing"))
        | some apiKey =>
          .ok
            { executor := key.executor
              provider := key.provider
              baseUrl := stripped
                (some ((baseUrlOverride.filter (· ≠ "")).getD provider.baseUrl))
              model := some (PyText.strip (row.model.getD ""))
              apiKey := apiKey
              extra := emptyExtra
              secretVersion := row.version
              source := .modelProvider keyMode }

def resolveRow (db : Tables F) (key : CredentialKey) (row : CodingCredential F) :
    Except ResolveError (Resolved F) :=
  match row.source with
  | .modelProvider keyMode => resolveReference db key row keyMode
  | .manual =>
    match row.apiKey with
    | none => .error .notConfigured
    | some apiKey =>
      .ok
        { executor := key.executor
          provider := key.provider
          baseUrl := row.baseUrl
          model := row.model
          apiKey := apiKey
          extra := row.extra
          secretVersion := row.version
          source := .manual }

/-- `resolve`: the credentials of the user come before the global ones. -/
def resolve (db : Tables F) (uid : String) (executor : Executor) :
    Except ResolveError (Resolved F) :=
  match db.latest (some uid) executor with
  | some e => resolveRow db e.1 e.2
  | none =>
    match db.latest none executor with
    | some e => resolveRow db e.1 e.2
    | none => .error .missing

/-! ## Fingerprints -/

/-- The dictionary `extra` that goes into the fingerprint of a reference. -/
def referenceExtra (keyMode : KeyMode) : Extra F where
  dict :=
    { fields := [("key_mode", .str keyMode.name), ("source", .str "model_provider")]
      wellFormed := by simp [Json.WellFormed, Json.WellFormedFields] }
  sorted := by simp [Json.Dict.toJson, Json.sortKeys, Json.sortFields, List.insertionSort]

namespace Resolved

def fingerprintExtra (r : Resolved F) : Extra F :=
  match r.source with
  | .manual => r.extra
  | .modelProvider keyMode => referenceExtra keyMode

/-- `key_hash`, for a reference only. -/
def keyHash (sha : Sha256) (r : Resolved F) : Option (List Char) :=
  match r.source with
  | .manual => none
  | .modelProvider _ => some (keyFingerprint sha r.apiKey)

/-- The dictionary that is hashed. -/
def payload (sha : Sha256) (r : Resolved F) : Json F :=
  .obj ([("executor", .str r.executor.name), ("provider", .str r.provider),
      ("base_url", .str (r.baseUrl.getD "")), ("model", .str (r.model.getD "")),
      ("secret_version", .int r.secretVersion), ("extra", r.fingerprintExtra.dict.toJson)] ++
    match r.keyHash sha with
    | none => []
    | some hash => [("key_hash", .str (String.ofList hash))])

variable (py : PyValues F) (sha : Sha256)

/-- `canonical` of `credential_fingerprint` -/
def canonical (r : Resolved F) : List Char :=
  Json.dump py.float (r.payload sha).sortKeys

/-- `credential_fingerprint`; the digest has 64 digits, so all of them are kept. -/
def fingerprint (r : Resolved F) : List Char :=
  sha.hexdigest (r.canonical py sha)

end Resolved

/-! ## Environments -/

/-- A dictionary of environment variables. -/
abbrev Environment := String → Option String

def Environment.empty : Environment :=
  fun _ => none

/-- `env.update(other)` -/
def Environment.update (env other : Environment) : Environment :=
  fun name => (other name).or (env name)

/-- A variable that is set if its value is not empty. -/
def optionalVariable (name value : String) : List (String × String) :=
  if value = "" then [] else [(name, value)]

variable (py : PyValues F) (codexUrl : String → String)

/-- `coding_executor_environment`; `codexUrl` is the URL with the path that the tool
expects. -/
def codingExecutorEnvironment (executor : Executor) (provider apiKey : String)
    (baseUrl model : String) (extra : Fields F) : Environment :=
  match executor with
  | .opencode => fun name =>
    ([("OPENCODE_PROVIDER", provider), ("OPENCODE_API_KEY", apiKey),
      ("OPENCODE_PROVIDER_NPM",
        strOf py (orElse py (fieldOf extra "provider_npm") (.str "@ai-sdk/openai-compatible")))] ++
      optionalVariable "OPENCODE_BASE_URL" baseUrl ++
      optionalVariable "OPENCODE_MODEL" model).lookup name
  | .codex => fun name =>
    ([("CODEX_API_KEY", apiKey)] ++
      (if baseUrl = "" then [] else [("CODEX_BASE_URL", codexUrl baseUrl)]) ++
      optionalVariable "CODEX_MODEL" model ++
      if CodingTurn.truthy py (fieldOf extra "config_toml") then
        [("CODEX_CONFIG_TOML", strOf py (fieldOf extra "config_toml"))]
      else []).lookup name

def Resolved.environment (r : Resolved F) : Environment :=
  codingExecutorEnvironment py codexUrl r.executor r.provider r.apiKey (r.baseUrl.getD "")
    (r.model.getD "") r.extra.dict.fields

/-- The credentials of the tools that have one; `none` is an error that is not caught. -/
def resolveAll (db : Tables F) (uid : String) : List Executor → Option (List (Resolved F))
  | [] => some []
  | executor :: executors =>
    match resolve db uid executor with
    | .ok resolved => (resolveAll db uid executors).map (resolved :: ·)
    | .error .notConfigured => none
    | .error _ => resolveAll db uid executors

/-- The environment of several credentials. -/
def environmentOf (resolved : List (Resolved F)) : Environment :=
  resolved.foldl (fun env r => env.update (r.environment py codexUrl)) Environment.empty

/-- The texts in order, with bars between them. -/
def joinSorted (texts : List (List Char)) : List Char :=
  ['|'].intercalate (texts.insertionSort fun t t' => t ≤ t')

/-- The fingerprint of several credentials. -/
def fingerprintOf (sha : Sha256) (resolved : List (Resolved F)) : Option (List Char) :=
  if resolved = [] then none
  else some (sha.hexdigest (joinSorted (resolved.map (Resolved.fingerprint py sha))))

/-- `build_coding_environment`: the environment and the fingerprint. -/
def buildCodingEnvironment (sha : Sha256) (db : Tables F) (uid : String)
    (executors : List Executor) : Option (Environment × Option (List Char)) :=
  (resolveAll db uid executors).map fun resolved =>
    (environmentOf py codexUrl resolved, fingerprintOf py sha resolved)

end Yuanlei.CodingCredentials
