import Yuanlei.Coding.Credentials

/-!
# What a fingerprint says about an environment

The fingerprint of a credential is a digest of everything but its key, and of a short hash of the
key where the credential refers to a model provider.  So two lists of credentials with one
fingerprint give one environment exactly if their keys agree.

Main results:

- `canonical_injective`: what the hashed text determines.
- `CodingEnvironment`: what `build_coding_environment` has found.
-/

universe u

namespace Yuanlei.CodingCredentials

open CodingTurn (Executor PyValues)

variable {F : Type u}

/-! ## The hashed text -/

namespace Resolved

variable (sha : Sha256) (r : Resolved F)

theorem sortKeys_payload : (r.payload sha).sortKeys =
    .obj ([("base_url", .str (r.baseUrl.getD "")), ("executor", .str r.executor.name),
        ("extra", r.fingerprintExtra.dict.toJson)] ++
      (match r.keyHash sha with
        | none => []
        | some hash => [("key_hash", .str (String.ofList hash))]) ++
      [("model", .str (r.model.getD "")), ("provider", .str r.provider),
        ("secret_version", .int r.secretVersion)]) := by
  have hextra := r.fingerprintExtra.sorted
  unfold payload
  cases r.keyHash sha with
  | none =>
    simp [Json.sortKeys, Json.sortFields, List.insertionSort, List.orderedInsert, hextra]
  | some hash =>
    simp [Json.sortKeys, Json.sortFields, List.insertionSort, List.orderedInsert, hextra]

theorem wellFormed_payload : (r.payload sha).sortKeys.WellFormed := by
  have hextra : r.fingerprintExtra.dict.toJson.WellFormed := r.fingerprintExtra.dict.wellFormed
  rw [sortKeys_payload]
  cases r.keyHash sha with
  | none => simp [Json.WellFormed, Json.WellFormedFields, hextra]
  | some hash => simp [Json.WellFormed, Json.WellFormedFields, hextra]

variable {py : PyValues F} {r r' : Resolved F}

/-- What the hashed text determines: everything but the key. -/
theorem canonical_injective (h : r.canonical py sha = r'.canonical py sha) :
    r.executor = r'.executor ∧ r.provider = r'.provider ∧ r.baseUrl.getD "" = r'.baseUrl.getD "" ∧
      r.model.getD "" = r'.model.getD "" ∧ r.keyHash sha = r'.keyHash sha ∧
      r.fingerprintExtra.dict.fields = r'.fingerprintExtra.dict.fields := by
  have hload := Json.loads_dump py.float (r.wellFormed_payload sha)
  have hload' := Json.loads_dump py.float (r'.wellFormed_payload sha)
  rw [canonical, canonical] at h
  rw [h, hload', Option.some.injEq, sortKeys_payload, sortKeys_payload] at hload
  have hname : r.executor.name = r'.executor.name → r.executor = r'.executor := by
    cases r.executor <;> cases r'.executor <;> simp [Executor.name]
  have htext : ∀ t t' : List Char, String.ofList t = String.ofList t' → t = t' :=
    fun t t' heq => String.ofList_injective heq
  -- A text with a key hash and one without have different numbers of fields.
  cases hkey : r.keyHash sha <;> cases hkey' : r'.keyHash sha <;> rw [hkey, hkey'] at hload <;>
    simp [Json.Dict.toJson] at hload ⊢ <;> grind

/-- A reference has no settings of its own. -/
def Proper (r : Resolved F) : Prop :=
  ∀ keyMode, r.source = .modelProvider keyMode → r.extra = emptyExtra

/-- The hashed text determines the settings. -/
theorem extra_eq_of_canonical (hproper : r.Proper)
    (hproper' : r'.Proper) (h : r.canonical py sha = r'.canonical py sha) :
    r.extra.dict.fields = r'.extra.dict.fields := by
  obtain ⟨-, -, -, -, hkey, hextra⟩ := canonical_injective sha h
  unfold keyHash at hkey
  unfold fingerprintExtra at hextra
  cases hsource : r.source with
  | manual =>
    cases hsource' : r'.source with
    | manual => simpa [hsource, hsource'] using hextra
    | modelProvider keyMode' => simp [hsource, hsource'] at hkey
  | modelProvider keyMode =>
    cases hsource' : r'.source with
    | manual => simp [hsource, hsource'] at hkey
    | modelProvider keyMode' => rw [hproper keyMode hsource, hproper' keyMode' hsource']

/-- The variable that holds the key. -/
def keyVariable : Executor → String
  | .opencode => "OPENCODE_API_KEY"
  | .codex => "CODEX_API_KEY"

theorem environment_keyVariable (py : PyValues F) (codexUrl : String → String) (r : Resolved F) :
    r.environment py codexUrl (keyVariable r.executor) = some r.apiKey := by
  unfold environment codingExecutorEnvironment
  cases r.executor <;> simp [keyVariable, List.lookup_cons]

theorem environment_eq_iff {codexUrl : String → String} (hproper : r.Proper) (hproper' : r'.Proper)
    (h : r.canonical py sha = r'.canonical py sha) :
    r.environment py codexUrl = r'.environment py codexUrl ↔ r.apiKey = r'.apiKey := by
  obtain ⟨hexecutor, hprovider, hurl, hmodel, -, -⟩ := canonical_injective sha h
  have hextra := extra_eq_of_canonical sha hproper hproper' h
  constructor
  · intro heq
    have hkey := environment_keyVariable py codexUrl r
    rw [heq, hexecutor, environment_keyVariable, Option.some.injEq] at hkey
    exact hkey.symm
  · intro hkey
    unfold environment
    rw [hexecutor, hprovider, hurl, hmodel, hextra, hkey]

end Resolved

/-! ## Several credentials -/

/-- The names that a tool reads. -/
def variableNames : Executor → List String
  | .opencode => ["OPENCODE_PROVIDER", "OPENCODE_API_KEY", "OPENCODE_PROVIDER_NPM",
      "OPENCODE_BASE_URL", "OPENCODE_MODEL"]
  | .codex => ["CODEX_API_KEY", "CODEX_BASE_URL", "CODEX_MODEL", "CODEX_CONFIG_TOML"]

variable {py : PyValues F} {codexUrl : String → String} {r : Resolved F} {name value : String}

theorem mem_variableNames (h : r.environment py codexUrl name = some value) :
    name ∈ variableNames r.executor := by
  have hmem : ∀ pairs : List (String × String), pairs.lookup name = some value →
      name ∈ pairs.map Prod.fst := by
    intro pairs hlookup
    have hsome : (pairs.lookup name).isSome := by rw [hlookup]; rfl
    obtain ⟨e, he, hname⟩ := List.lookup_isSome_iff.mp hsome
    exact List.mem_map.mpr ⟨e, he, (beq_iff_eq.mp hname).symm⟩
  unfold Resolved.environment codingExecutorEnvironment at h
  cases hexecutor : r.executor with
  | opencode =>
    rw [hexecutor] at h
    have hnames := hmem _ h
    unfold optionalVariable at hnames
    split_ifs at hnames <;> simp [variableNames] at hnames ⊢ <;> tauto
  | codex =>
    rw [hexecutor] at h
    have hnames := hmem _ h
    unfold optionalVariable at hnames
    split_ifs at hnames <;> simp [variableNames] at hnames ⊢ <;> tauto

theorem executor_eq_of_variable {r' : Resolved F}
    {value' : String} (h : r.environment py codexUrl name = some value)
    (h' : r'.environment py codexUrl name = some value') : r.executor = r'.executor := by
  have hname := mem_variableNames h
  have hname' := mem_variableNames h'
  cases hexecutor : r.executor <;> cases hexecutor' : r'.executor <;>
    rw [hexecutor] at hname <;> rw [hexecutor'] at hname' <;>
    simp [variableNames] at hname hname' ⊢ <;>
    rcases hname with rfl | rfl | rfl | rfl | rfl <;> simp at hname'

/-- One credential for each tool. -/
def OnePerTool (resolved : List (Resolved F)) : Prop :=
  ∀ r ∈ resolved, ∀ r' ∈ resolved, r.executor = r'.executor → r = r'

variable {resolved : List (Resolved F)}

/-- The variables of several credentials are those of each of them. -/
theorem environmentOf_eq_some (hone : OnePerTool resolved) :
    environmentOf py codexUrl resolved name = some value ↔
      ∃ r ∈ resolved, r.environment py codexUrl name = some value := by
  have hfold : ∀ (rest : List (Resolved F)) (env : Environment), (∀ r ∈ rest, r ∈ resolved) →
      (∀ v, env name = some v → ∃ r ∈ resolved, r.environment py codexUrl name = some v) →
      (rest.foldl (fun env r => env.update (r.environment py codexUrl)) env name = some value ↔
        env name = some value ∨ ∃ r ∈ rest, r.environment py codexUrl name = some value) := by
    intro rest
    induction rest with
    | nil => simp
    | cons r rest ih =>
      intro env hmem henv
      have hr := hmem r (by simp)
      have hupdate : ∀ v, env.update (r.environment py codexUrl) name = some v ↔
          env name = some v ∨ r.environment py codexUrl name = some v := by
        intro v
        unfold Environment.update
        cases hnew : r.environment py codexUrl name with
        | none => simp
        | some new =>
          simp only [Option.some_or, Option.some.injEq]
          constructor
          · exact Or.inr
          · rintro (hold | hsame)
            · obtain ⟨r', hr', hvalue⟩ := henv v hold
              have heq := hone r hr r' hr' (executor_eq_of_variable hnew hvalue)
              rw [← heq, hnew] at hvalue
              exact Option.some.inj hvalue
            · exact hsame
      rw [List.foldl_cons, ih _ (fun r' hr' => hmem r' (by simp [hr'])) ?_, hupdate value]
      · simp [or_assoc]
      · intro v hv
        rcases (hupdate v).mp hv with hold | hnew
        · exact henv v hold
        · exact ⟨r, hr, hnew⟩
  rw [environmentOf, hfold resolved Environment.empty (fun r hr => hr) (fun v hv => nomatch hv)]
  simp [Environment.empty]

/-- The texts between the bars. -/
theorem perm_of_joinSorted_eq {texts texts' : List (List Char)} (hbar : ∀ t ∈ texts, '|' ∉ t)
    (hbar' : ∀ t ∈ texts', '|' ∉ t) (hne : texts ≠ []) (hne' : texts' ≠ [])
    (h : joinSorted texts = joinSorted texts') : texts.Perm texts' := by
  have hsorted : ∀ ts : List (List Char), (∀ t ∈ ts, '|' ∉ t) → ts ≠ [] →
      (joinSorted ts).splitOn '|' = ts.insertionSort fun t t' => t ≤ t' := by
    intro ts hts hnil
    have hperm := List.perm_insertionSort (fun t t' : List Char => t ≤ t') ts
    apply List.splitOn_intercalate
    · exact fun t ht => hts t (hperm.mem_iff.mp ht)
    · intro hempty
      rw [hempty] at hperm
      exact hnil (List.nil_perm.mp hperm)
  have heq := hsorted texts hbar hne
  rw [h, hsorted texts' hbar' hne'] at heq
  have hperm := List.perm_insertionSort (fun t t' : List Char => t ≤ t') texts
  have hperm' := List.perm_insertionSort (fun t t' : List Char => t ≤ t') texts'
  rw [heq] at hperm'
  exact hperm.symm.trans hperm'

variable {sha : Sha256} {resolved' : List (Resolved F)} {f : List Char}

theorem mem_of_fingerprintOf_eq (h : fingerprintOf py sha resolved = some f)
    (h' : fingerprintOf py sha resolved' = some f) :
    ∀ r ∈ resolved, ∃ r' ∈ resolved', r.canonical py sha = r'.canonical py sha := by
  unfold fingerprintOf at h h'
  split at h
  · cases h
  · next hne =>
    split at h'
    · cases h'
    · next hne' =>
      rw [← h', Option.some.injEq] at h
      have hbar : ∀ rs : List (Resolved F), ∀ t ∈ rs.map (Resolved.fingerprint py sha), '|' ∉ t := by
        intro rs t ht
        obtain ⟨r, -, rfl⟩ := List.mem_map.mp ht
        exact sha.noBar _
      have hperm := perm_of_joinSorted_eq (hbar resolved) (hbar resolved') (by simpa using hne)
        (by simpa using hne') (sha.injective h)
      intro r hr
      have hmem : r.fingerprint py sha ∈ resolved'.map (Resolved.fingerprint py sha) :=
        hperm.mem_iff.mp (List.mem_map_of_mem hr)
      obtain ⟨r', hr', heq⟩ := List.mem_map.mp hmem
      exact ⟨r', hr', sha.injective heq.symm⟩

/-- Lists of credentials with one fingerprint give one environment exactly if credentials with the
same hashed text have the same key. -/
theorem environmentOf_eq_iff (hone : OnePerTool resolved)
    (hone' : OnePerTool resolved') (hproper : ∀ r ∈ resolved, r.Proper)
    (hproper' : ∀ r ∈ resolved', r.Proper) (h : fingerprintOf py sha resolved = some f)
    (h' : fingerprintOf py sha resolved' = some f) :
    environmentOf py codexUrl resolved = environmentOf py codexUrl resolved' ↔
      ∀ r ∈ resolved, ∀ r' ∈ resolved', r.canonical py sha = r'.canonical py sha →
        r.apiKey = r'.apiKey := by
  constructor
  · intro heq r hr r' hr' hcanonical
    have hexecutor := (Resolved.canonical_injective sha hcanonical).1
    have hkey : environmentOf py codexUrl resolved (Resolved.keyVariable r.executor) =
        some r.apiKey :=
      (environmentOf_eq_some hone).mpr ⟨r, hr, Resolved.environment_keyVariable py codexUrl r⟩
    have hkey' : environmentOf py codexUrl resolved' (Resolved.keyVariable r'.executor) =
        some r'.apiKey :=
      (environmentOf_eq_some hone').mpr ⟨r', hr', Resolved.environment_keyVariable py codexUrl r'⟩
    rw [heq, hexecutor, hkey', Option.some.injEq] at hkey
    exact hkey.symm
  · intro hkeys
    funext name
    apply Option.ext
    intro value
    rw [environmentOf_eq_some hone, environmentOf_eq_some hone']
    constructor
    · rintro ⟨r, hr, hvalue⟩
      obtain ⟨r', hr', hcanonical⟩ := mem_of_fingerprintOf_eq h h' r hr
      have hsame : r.environment py codexUrl = r'.environment py codexUrl :=
        (Resolved.environment_eq_iff sha (hproper r hr) (hproper' r' hr') hcanonical).mpr
          (hkeys r hr r' hr' hcanonical)
      exact ⟨r', hr', hsame ▸ hvalue⟩
    · rintro ⟨r', hr', hvalue⟩
      obtain ⟨r, hr, hcanonical⟩ := mem_of_fingerprintOf_eq h' h r' hr'
      have hsame : r.environment py codexUrl = r'.environment py codexUrl :=
        (Resolved.environment_eq_iff sha (hproper r hr) (hproper' r' hr') hcanonical.symm).mpr
          (hkeys r hr r' hr' hcanonical.symm)
      exact ⟨r, hr, hsame ▸ hvalue⟩

/-! ## Environments that are built -/

variable {db : Tables F} {executor : Executor}

theorem executor_of_latest {owner : Option String} {e : CredentialKey × CodingCredential F}
    (h : db.latest owner executor = some e) :
    e.1.executor = executor := by
  have hall : ∀ b, db.latest owner executor = some b → b.1.executor = executor := by
    unfold Tables.latest
    refine List.foldlRecOn (motive := fun best : Option (CredentialKey × CodingCredential F) =>
      ∀ b, best = some b → b.1.executor = executor) _ _ ?_ ?_
    · intro b hb
      cases hb
    · intro best hbest e' he' b hb
      have hfilter := (List.mem_filter.mp he').2
      simp only [decide_eq_true_eq] at hfilter
      cases best with
      | none =>
        cases hb
        exact hfilter.2.1
      | some b₀ =>
        have hb₀ := hbest b₀ rfl
        simp only at hb
        split at hb
        · cases hb
          exact hfilter.2.1
        · cases hb
          exact hb₀
  exact hall e h

theorem resolveRow_ok {key : CredentialKey} {row : CodingCredential F}
    (h : resolveRow db key row = .ok r) :
    r.executor = key.executor ∧ r.Proper := by
  unfold resolveRow at h
  cases hsource : row.source with
  | manual =>
    rw [hsource] at h
    cases hkey : row.apiKey with
    | none => rw [hkey] at h; cases h
    | some apiKey =>
      rw [hkey] at h
      cases h
      exact ⟨rfl, fun keyMode hmode => nomatch hmode⟩
  | modelProvider keyMode =>
    rw [hsource] at h
    unfold resolveReference at h
    simp only at h
    split at h
    · cases h
    · split at h
      · cases h
      · split at h
        · cases h
        · split at h
          · cases h
          · cases h
            exact ⟨rfl, fun _ _ => rfl⟩

variable {uid : String}

theorem resolve_ok (h : resolve db uid executor = .ok r) : r.executor = executor ∧ r.Proper := by
  unfold resolve at h
  split at h
  · next e he =>
    have hrow := resolveRow_ok h
    exact ⟨hrow.1.trans (executor_of_latest he), hrow.2⟩
  · split at h
    · next e he =>
      have hrow := resolveRow_ok h
      exact ⟨hrow.1.trans (executor_of_latest he), hrow.2⟩
    · cases h

variable {executors : List Executor}

section

variable (h : resolveAll db uid executors = some resolved)
include h

theorem resolve_of_mem (hr : r ∈ resolved) : ∃ executor, resolve db uid executor = .ok r := by
  induction executors generalizing resolved with
  | nil =>
    cases h
    cases hr
  | cons executor executors ih =>
    unfold resolveAll at h
    split at h
    · next r' hr' =>
      obtain ⟨rest, hrest, rfl⟩ := Option.map_eq_some_iff.mp h
      rcases List.mem_cons.mp hr with rfl | hmem
      · exact ⟨executor, hr'⟩
      · exact ih hrest hmem
    · cases h
    · exact ih h hr

theorem onePerTool_of_resolveAll :
    OnePerTool resolved := by
  intro r hr r' hr' hsame
  obtain ⟨executor, hok⟩ := resolve_of_mem h hr
  obtain ⟨executor', hok'⟩ := resolve_of_mem h hr'
  rw [(resolve_ok hok).1, (resolve_ok hok').1] at hsame
  rw [hsame, hok'] at hok
  exact (Except.ok.inj hok).symm

theorem proper_of_resolveAll :
    ∀ r ∈ resolved, r.Proper := by
  intro r hr
  obtain ⟨executor, hok⟩ := resolve_of_mem h hr
  exact (resolve_ok hok).2

end

/-- The credentials that `build_coding_environment` has found. -/
structure CodingEnvironment (F : Type u) where
  resolved : List (Resolved F)
  onePerTool : OnePerTool resolved
  proper : ∀ r ∈ resolved, r.Proper

namespace CodingEnvironment

def build (db : Tables F) (uid : String) (executors : List Executor) :
    Option (CodingEnvironment F) :=
  match h : resolveAll db uid executors with
  | none => none
  | some resolved =>
    some ⟨resolved, onePerTool_of_resolveAll h, proper_of_resolveAll h⟩

def env (py : PyValues F) (codexUrl : String → String) (c : CodingEnvironment F) : Environment :=
  environmentOf py codexUrl c.resolved

def fingerprint (py : PyValues F) (sha : Sha256) (c : CodingEnvironment F) : Option (List Char) :=
  fingerprintOf py sha c.resolved

/-- The keys of credentials with the same hashed text agree. -/
def KeysAgree (py : PyValues F) (sha : Sha256) (c c' : CodingEnvironment F) : Prop :=
  ∀ r ∈ c.resolved, ∀ r' ∈ c'.resolved, r.canonical py sha = r'.canonical py sha →
    r.apiKey = r'.apiKey

theorem env_eq_iff {py : PyValues F} {codexUrl : String → String} {sha : Sha256}
    {c c' : CodingEnvironment F} {f : List Char} (h : c.fingerprint py sha = some f)
    (h' : c'.fingerprint py sha = some f) :
    c.env py codexUrl = c'.env py codexUrl ↔ KeysAgree py sha c c' :=
  environmentOf_eq_iff c.onePerTool c'.onePerTool c.proper c'.proper h h'

end CodingEnvironment

end Yuanlei.CodingCredentials
