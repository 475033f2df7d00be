import Yuanlei.Lib.PySplit
import Yuanlei.Lib.PyText

/-!
# Identities of sandboxes

A sandbox belongs to a thread of a user, or to an agent of a user in a project.  Its scope is
written as a cache key, hashed to an id, and flattened to an identity for the provisioner.  Names
are not blank and stripped, and otherwise arbitrary: the subject of an OIDC login holds colons.
The first 12 digits of SHA-256 are a parameter, and taken as injective.

Main results:

- `fromCacheKey_cacheKey_iff`: which scopes are read back from their cache keys.
- `separates_iff`: which pairs of scopes the encodings keep apart.
-/

namespace Yuanlei.SandboxIdentity

open PyText (stripChars partition splitMax)

/-! ## Scopes -/

/-- A text that is not blank and has no white space at its ends. -/
@[ext]
structure Name where
  chars : List Char
  ne_nil : chars ≠ []
  stripped : stripChars chars = chars

inductive SandboxScope where
  | thread (uid threadId : Name)
  | agentProject (uid agentSlug projectId : Name)

inductive ScopeError where
  | uidRequired
  | threadIdRequired
  | agentSlugAndProjectIdRequired
  | invalidAgentProjectKey (key : List Char)
  | invalidThreadKey (key : List Char)
deriving DecidableEq

/-- The name that a text stands for, or the error of `validate`. -/
def Name.read (raw : List Char) (error : ScopeError) : Except ScopeError Name :=
  if h : stripChars raw = [] then .error error
  else .ok { chars := stripChars raw, ne_nil := h, stripped := PyText.stripChars_stripChars raw }

namespace SandboxScope

def uid : SandboxScope → Name
  | thread uid _ => uid
  | agentProject uid _ _ => uid

def isAgentProject : SandboxScope → Bool
  | thread _ _ => false
  | agentProject _ _ _ => true

/-- The class method `SandboxScope.thread` -/
def ofThread (uid threadId : List Char) : Except ScopeError SandboxScope := do
  let uid ← Name.read uid .uidRequired
  let threadId ← Name.read threadId .threadIdRequired
  return thread uid threadId

/-- The class method `SandboxScope.agent_project` -/
def ofAgentProject (uid agentSlug projectId : List Char) : Except ScopeError SandboxScope := do
  let uid ← Name.read uid .uidRequired
  let agentSlug ← Name.read agentSlug .agentSlugAndProjectIdRequired
  let projectId ← Name.read projectId .agentSlugAndProjectIdRequired
  return agentProject uid agentSlug projectId

/-- The text `agent-project` -/
def marker : List Char :=
  ['a', 'g', 'e', 'n', 't', '-', 'p', 'r', 'o', 'j', 'e', 'c', 't']

def cacheKey : SandboxScope → List Char
  | thread uid threadId => uid.chars ++ ':' :: ':' :: threadId.chars
  | agentProject uid agentSlug projectId =>
    marker ++ ':' :: (uid.chars ++ ':' :: (agentSlug.chars ++ ':' :: projectId.chars))

def fromCacheKey (raw : List Char) : Except ScopeError SandboxScope :=
  if marker ++ [':'] <+: raw then
    match splitMax [':'] 3 raw with
    | [_, uid, agentSlug, projectId] => ofAgentProject uid agentSlug projectId
    | _ => .error (.invalidAgentProjectKey raw)
  else
    match partition [':', ':'] raw with
    | none => .error (.invalidThreadKey raw)
    | some (uid, threadId) => ofThread uid threadId

def fromRuntimeScope (uid runtimeScopeId : List Char) : Except ScopeError SandboxScope :=
  let runtimeId := stripChars runtimeScopeId
  if marker ++ [':'] <+: runtimeId then fromCacheKey runtimeId
  else ofThread uid runtimeId

/-- A letter, a digit, an underscore or a hyphen. -/
def isIdentityChar (c : Char) : Bool :=
  c.isAlphanum || c == '_' || c == '-'

def provisionerIdentity : SandboxScope → List Char
  | thread _ threadId => threadId.chars
  | agentProject uid agentSlug projectId =>
    (marker ++ '-' :: (uid.chars ++ '-' :: (agentSlug.chars ++ '-' :: projectId.chars))).map
      fun c => if isIdentityChar c then c else '-'

/-- The first digits of the digest of a text. -/
structure ShortDigest where
  hex : List Char → List Char
  injective : Function.Injective hex

variable (digest : ShortDigest)

def sandboxIdForThread (threadId uid : List Char) : List Char :=
  let runtimeId := stripChars threadId
  let uidId := stripChars uid
  digest.hex (if uidId = [] then runtimeId else uidId ++ ':' :: runtimeId)

def sandboxId : SandboxScope → List Char
  | thread uid threadId => sandboxIdForThread digest threadId.chars uid.chars
  | scope => digest.hex scope.cacheKey

/-- The `runtime_scope_id` of a run in the scope. -/
def runtimeScopeId : SandboxScope → List Char
  | thread _ threadId => threadId.chars
  | scope => scope.cacheKey

/-- `ProvisionerSandboxBackend.id` of the backend that `create_backend` builds. -/
def backendId (scope : SandboxScope) : List Char :=
  sandboxIdForThread digest scope.runtimeScopeId scope.uid.chars

/-! ## Reading a cache key -/

theorem read_chars (name : Name) (error : ScopeError) : Name.read name.chars error = .ok name := by
  unfold Name.read
  rw [dif_neg (by rw [name.stripped]; exact name.ne_nil)]
  congr 1
  ext1
  exact name.stripped

variable {uid : List Char} {scope : SandboxScope}

theorem ofThread_eq_ok {threadId : List Char} (h : ofThread uid threadId = .ok scope) :
    ∃ u t, scope = thread u t ∧ u.chars = stripChars uid := by
  unfold ofThread Name.read at h
  by_cases hu : stripChars uid = [] <;> by_cases ht : stripChars threadId = [] <;>
    simp [hu, ht, bind, Except.bind, pure, Except.pure] at h
  exact ⟨_, _, h.symm, rfl⟩

theorem ofAgentProject_eq_ok {agentSlug projectId : List Char}
    (h : ofAgentProject uid agentSlug projectId = .ok scope) :
    ∃ u a p, scope = agentProject u a p ∧ u.chars = stripChars uid ∧
      a.chars = stripChars agentSlug := by
  unfold ofAgentProject Name.read at h
  by_cases hu : stripChars uid = [] <;> by_cases ha : stripChars agentSlug = [] <;>
    by_cases hp : stripChars projectId = [] <;>
    simp [hu, ha, hp, bind, Except.bind, pure, Except.pure] at h
  exact ⟨_, _, _, h.symm, rfl, rfl⟩

theorem length_stripChars_le (t : List Char) : (stripChars t).length ≤ t.length := by
  obtain ⟨left, right, -, -, heq⟩ := PyText.exists_append_stripChars t
  have hlength := congrArg List.length heq
  simp only [List.length_append] at hlength
  omega

theorem fromCacheKey_marker {x y z : List Char} (hx : ':' ∉ x) (hy : ':' ∉ y) :
    fromCacheKey (marker ++ ':' :: (x ++ ':' :: (y ++ ':' :: z))) = ofAgentProject x y z := by
  have hmarker : ':' ∉ marker := by decide
  have hstart : marker ++ [':'] <+: marker ++ ':' :: (x ++ ':' :: (y ++ ':' :: z)) := by
    rw [List.append_cons]
    exact List.prefix_append _ _
  unfold fromCacheKey
  rw [if_pos hstart]
  simp only [splitMax, PyText.partition_singleton _ _ hmarker, PyText.partition_singleton _ _ hx,
    PyText.partition_singleton _ _ hy]

theorem fromCacheKey_agentProject (u a p : Name) :
    fromCacheKey (agentProject u a p).cacheKey = .ok (agentProject u a p) ↔
      ':' ∉ u.chars ∧ ':' ∉ a.chars := by
  simp only [cacheKey]
  constructor
  · intro h
    by_cases hu : ':' ∈ u.chars
    · -- The part before the first colon is shorter than the user.
      obtain ⟨x, rest, hcut, hx⟩ := List.eq_append_cons_of_mem hu
      obtain ⟨y, z, hrest, hy⟩ := List.eq_append_cons_of_mem
        (show ':' ∈ rest ++ ':' :: (a.chars ++ ':' :: p.chars) by simp)
      rw [hcut, List.append_assoc, List.cons_append, hrest, fromCacheKey_marker hx hy] at h
      obtain ⟨u', a', p', hscope, huid, -⟩ := ofAgentProject_eq_ok h
      cases hscope
      have hlength := congrArg List.length hcut
      have hshort := length_stripChars_le x
      rw [← huid] at hshort
      simp only [List.length_append, List.length_cons] at hlength
      omega
    · refine ⟨hu, fun ha => ?_⟩
      obtain ⟨y, rest, hcut, hy⟩ := List.eq_append_cons_of_mem ha
      rw [hcut, List.append_assoc, List.cons_append, fromCacheKey_marker hu hy] at h
      obtain ⟨u', a', p', hscope, -, hslug⟩ := ofAgentProject_eq_ok h
      cases hscope
      have hlength := congrArg List.length hcut
      have hshort := length_stripChars_le y
      rw [← hslug] at hshort
      simp only [List.length_append, List.length_cons] at hlength
      omega
  · rintro ⟨hu, ha⟩
    rw [fromCacheKey_marker hu ha]
    simp [ofAgentProject, read_chars, bind, Except.bind, pure, Except.pure]

/-- The key of a thread starts as the key of an agent only because of its user. -/
theorem marker_prefix_iff (u t : List Char) :
    marker ++ [':'] <+: u ++ ':' :: ':' :: t ↔ marker ++ [':'] <+: u ++ [':'] := by
  have hwhole : u ++ [':'] <+: u ++ ':' :: ':' :: t := ⟨':' :: t, by simp⟩
  constructor
  · intro h
    rcases List.prefix_or_prefix_of_prefix h hwhole with hshort | hlong
    · exact hshort
    · -- Otherwise the colon after the user lies inside the marker.
      by_cases hlength : (u ++ [':']).length = (marker ++ [':']).length
      · rw [hlong.eq_of_length hlength]
      · have hle := hlong.length_le
        have hinside : u ++ [':'] <+: marker := by
          refine List.prefix_of_prefix_length_le hlong (List.prefix_append _ _) ?_
          simp only [List.length_append, List.length_cons, List.length_nil] at hle hlength ⊢
          omega
        have hmem : ':' ∈ marker := hinside.subset (by simp)
        exact absurd hmem (by decide)
  · exact fun h => h.trans hwhole

/-- The user of a thread is not read as the beginning of the key of an agent, and the first two
colons of the key are the separator. -/
def PlainUser (u : Name) : Prop :=
  ¬ marker ++ [':'] <+: u.chars ++ [':'] ∧ ¬ [':', ':'] <:+: u.chars ++ [':']

theorem fromCacheKey_thread (u t : Name) :
    fromCacheKey (thread u t).cacheKey = .ok (thread u t) ↔ PlainUser u := by
  simp only [cacheKey]
  unfold fromCacheKey PlainUser
  rw [← marker_prefix_iff u.chars t.chars]
  by_cases hmarker : marker ++ [':'] <+: u.chars ++ ':' :: ':' :: t.chars
  · simp only [hmarker, if_true, not_true, false_and, iff_false]
    intro h
    split at h
    · obtain ⟨u', a', p', hscope, -⟩ := ofAgentProject_eq_ok h
      cases hscope
    · cases h
  · simp only [hmarker, if_false, not_false_iff, true_and]
    rw [← PyText.partition_pair u.chars t.chars]
    constructor
    · intro h
      cases hcut : partition [':', ':'] (u.chars ++ ':' :: ':' :: t.chars) with
      | none =>
        rw [hcut] at h
        cases h
      | some cut =>
        obtain ⟨x, y⟩ := cut
        rw [hcut] at h
        obtain ⟨u', t', hscope, huid⟩ := ofThread_eq_ok h
        cases hscope
        obtain ⟨heq, hfirst⟩ := (PyText.partition_eq_some_iff (by simp)).mp hcut
        have hshort := length_stripChars_le x
        rw [← huid] at hshort
        -- The separator starts after the user, so the cut is not later.
        have hlate : ¬ u.chars.length < x.length := by
          intro hlt
          refine hfirst u.chars.length hlt ?_
          rw [List.drop_left]
          exact ⟨t.chars, rfl⟩
        have hlength : u.chars.length = x.length := by omega
        obtain ⟨hx, hrest⟩ := List.append_inj heq hlength
        rw [hx, (List.cons.inj (List.cons.inj hrest).2).2]
        rfl
    · intro hcut
      rw [hcut]
      simp [ofThread, read_chars, bind, Except.bind, pure, Except.pure]

/-- A scope that is read back from its cache key. -/
def Decodable : SandboxScope → Prop
  | thread u _ => PlainUser u
  | agentProject u a _ => ':' ∉ u.chars ∧ ':' ∉ a.chars

theorem fromCacheKey_cacheKey_iff (s : SandboxScope) :
    fromCacheKey s.cacheKey = .ok s ↔ s.Decodable := by
  cases s with
  | thread u t => exact fromCacheKey_thread u t
  | agentProject u a p => exact fromCacheKey_agentProject u a p

theorem isSpace_getLast (name : Name) :
    PyText.isSpace (name.chars.getLast name.ne_nil) = false := by
  have hstripped : (name.chars.dropWhile PyText.isSpace).rdropWhile PyText.isSpace = name.chars :=
    name.stripped
  have hne : (name.chars.dropWhile PyText.isSpace).rdropWhile PyText.isSpace ≠ [] := by
    rw [hstripped]
    exact name.ne_nil
  have hlast := List.rdropWhile_last_not PyText.isSpace _ hne
  simp only [hstripped] at hlast
  simpa using hlast

theorem stripChars_cacheKey (u a p : Name) :
    stripChars (agentProject u a p).cacheKey = (agentProject u a p).cacheKey := by
  have hkey : (agentProject u a p).cacheKey =
      'a' :: ((marker.tail ++ ':' :: (u.chars ++ ':' :: (a.chars ++ ':' :: p.chars.dropLast))) ++
        [p.chars.getLast p.ne_nil]) := by
    have hlast := List.dropLast_append_getLast p.ne_nil
    simp only [cacheKey, marker, List.tail_cons, List.append_assoc, List.cons_append, hlast,
      List.nil_append]
  rw [hkey]
  exact PyText.stripChars_of_ends (by decide) (isSpace_getLast p) _

theorem fromRuntimeScope_agentProject (u a p : Name) :
    fromRuntimeScope u.chars (agentProject u a p).cacheKey =
      fromCacheKey (agentProject u a p).cacheKey := by
  have hstart : marker ++ [':'] <+: (agentProject u a p).cacheKey :=
    ⟨u.chars ++ ':' :: (a.chars ++ ':' :: p.chars), by simp [cacheKey]⟩
  unfold fromRuntimeScope
  simp only [stripChars_cacheKey]
  rw [if_pos hstart]

/-! ## Ids -/

theorem sandboxId_thread (u t : Name) :
    (thread u t).sandboxId digest = digest.hex (u.chars ++ ':' :: t.chars) := by
  simp only [sandboxId, sandboxIdForThread, u.stripped, t.stripped]
  rw [if_neg u.ne_nil]

/-- The user of the second thread is the first user, a colon and the beginning of the first
thread. -/
def Shifted (u t u' t' : Name) : Prop :=
  ∃ x, u'.chars = u.chars ++ ':' :: x ∧ t.chars = x ++ ':' :: t'.chars

theorem sandboxId_collides_iff (u t u' t' : Name) :
    ((thread u t).sandboxId digest = (thread u' t').sandboxId digest ∧
      thread u t ≠ thread u' t') ↔ Shifted u t u' t' ∨ Shifted u' t' u t := by
  rw [sandboxId_thread, sandboxId_thread, digest.injective.eq_iff]
  constructor
  · rintro ⟨heq, hne⟩
    have hsame : u.chars = u'.chars → t.chars = t'.chars → False := by
      intro hu ht
      exact hne (by rw [Name.ext hu, Name.ext ht])
    rcases List.append_eq_append_iff.mp heq with ⟨x, hu, ht⟩ | ⟨x, hu, ht⟩
    · cases x with
      | nil =>
        refine (hsame ?_ (List.cons.inj ht).2).elim
        rw [hu, List.append_nil]
      | cons c x =>
        obtain ⟨rfl, hrest⟩ := List.cons.inj ht
        exact .inl ⟨x, hu, hrest⟩
    · cases x with
      | nil =>
        refine (hsame ?_ (List.cons.inj ht).2.symm).elim
        rw [hu, List.append_nil]
      | cons c x =>
        obtain ⟨rfl, hrest⟩ := List.cons.inj ht
        exact .inr ⟨x, hu, hrest⟩
  · have hshift : ∀ {u t u' t' : Name}, Shifted u t u' t' →
        u.chars ++ ':' :: t.chars = u'.chars ++ ':' :: t'.chars ∧ u ≠ u' := by
      rintro u t u' t' ⟨x, hu, ht⟩
      refine ⟨by rw [hu, ht, List.append_assoc, List.cons_append], ?_⟩
      rintro rfl
      have hlength := congrArg List.length hu
      simp only [List.length_append, List.length_cons] at hlength
      omega
    rintro (h | h)
    · refine ⟨(hshift h).1, fun heq => (hshift h).2 ?_⟩
      cases heq
      rfl
    · refine ⟨(hshift h).1.symm, fun heq => (hshift h).2 ?_⟩
      cases heq
      rfl

theorem backendId_agentProject (u a p : Name) :
    (agentProject u a p).backendId digest ≠ (agentProject u a p).sandboxId digest := by
  intro h
  simp only [backendId, runtimeScopeId, sandboxIdForThread, sandboxId, uid, u.stripped,
    stripChars_cacheKey] at h
  rw [if_neg u.ne_nil] at h
  have hlength := congrArg List.length (digest.injective h)
  simp only [List.length_append, List.length_cons] at hlength
  omega

/-! ## Separation -/

/-- The encodings of two scopes: both are read back, they differ if the scopes do, and the backends
have the ids of the scopes. -/
structure Separates (s t : SandboxScope) : Prop where
  decodes : fromCacheKey s.cacheKey = .ok s ∧ fromCacheKey t.cacheKey = .ok t
  runtime : ∀ r ∈ [s, t], r.isAgentProject = true →
    fromRuntimeScope r.uid.chars r.cacheKey = .ok r
  cacheKey : s.cacheKey = t.cacheKey → s = t
  sandboxId : s.sandboxId digest = t.sandboxId digest → s = t
  provisionerIdentity : s.isAgentProject = true → t.isAgentProject = true →
    s.provisionerIdentity = t.provisionerIdentity → s = t
  backend : s.backendId digest = s.sandboxId digest ∧ t.backendId digest = t.sandboxId digest

/-- Two threads of plain users that are not shifted against each other. -/
def Distinguished : SandboxScope → SandboxScope → Prop
  | thread u t, thread u' t' =>
    PlainUser u ∧ PlainUser u' ∧ ¬ Shifted u t u' t' ∧ ¬ Shifted u' t' u t
  | _, _ => False

theorem cacheKey_injective {s t : SandboxScope} (hs : s.Decodable) (ht : t.Decodable)
    (h : s.cacheKey = t.cacheKey) : s = t := by
  have hread := (fromCacheKey_cacheKey_iff s).mpr hs
  rw [h, (fromCacheKey_cacheKey_iff t).mpr ht] at hread
  exact (Except.ok.inj hread).symm

theorem separates_iff (s t : SandboxScope) : Separates digest s t ↔ Distinguished s t := by
  constructor
  · intro h
    cases s with
    | agentProject u a p => exact absurd h.backend.1 (backendId_agentProject digest u a p)
    | thread u i =>
      cases t with
      | agentProject u a p => exact absurd h.backend.2 (backendId_agentProject digest u a p)
      | thread u' i' =>
        have hcollides : ¬ (Shifted u i u' i' ∨ Shifted u' i' u i) := by
          rw [← sandboxId_collides_iff digest]
          exact fun hboth => hboth.2 (h.sandboxId hboth.1)
        exact ⟨(fromCacheKey_thread u i).mp h.decodes.1,
          (fromCacheKey_thread u' i').mp h.decodes.2, fun hl => hcollides (.inl hl),
          fun hr => hcollides (.inr hr)⟩
  · intro h
    cases s with
    | agentProject u a p => exact h.elim
    | thread u i =>
      cases t with
      | agentProject u a p => exact h.elim
      | thread u' i' =>
        obtain ⟨hu, hu', hleft, hright⟩ := h
        exact
          { decodes := ⟨(fromCacheKey_thread u i).mpr hu, (fromCacheKey_thread u' i').mpr hu'⟩
            runtime := by simp [isAgentProject]
            cacheKey := cacheKey_injective hu hu'
            sandboxId := by
              intro heq
              by_contra hne
              rcases (sandboxId_collides_iff digest u i u' i').mp ⟨heq, hne⟩ with hl | hr
              · exact hleft hl
              · exact hright hr
            provisionerIdentity := by simp [isAgentProject]
            backend := ⟨rfl, rfl⟩ }

/-- Two scopes are kept apart by all encodings exactly if they are threads of plain users that are
not shifted against each other.  A scope is read back exactly if it is decodable, decodable scopes
have different cache keys, and the backend of a scope has its id exactly if it is a thread. -/
theorem scope_encodings_separate_iff :
    (∀ s t, Separates digest s t ↔ Distinguished s t) ∧
    (∀ s : SandboxScope, fromCacheKey s.cacheKey = .ok s ↔ s.Decodable) ∧
    (∀ u a p : Name, fromRuntimeScope u.chars (agentProject u a p).cacheKey =
      .ok (agentProject u a p) ↔ ':' ∉ u.chars ∧ ':' ∉ a.chars) ∧
    (∀ s t : SandboxScope, s.Decodable → t.Decodable → s.cacheKey = t.cacheKey → s = t) ∧
    ∀ s : SandboxScope,
      s.backendId digest = s.sandboxId digest ↔ s.isAgentProject = false := by
  refine ⟨separates_iff digest, fromCacheKey_cacheKey_iff, ?_, fun _ _ => cacheKey_injective, ?_⟩
  · intro u a p
    rw [fromRuntimeScope_agentProject]
    exact fromCacheKey_agentProject u a p
  · intro s
    cases s with
    | thread u t => exact ⟨fun _ => rfl, fun _ => rfl⟩
    | agentProject u a p =>
      constructor
      · exact fun h => absurd h (backendId_agentProject digest u a p)
      · intro h
        cases h

/-- Two users with one cache key: the colon of an OIDC subject is taken for a separator. -/
theorem scope_encodings_collide :
    ¬ ∀ (digest : ShortDigest) (s t : SandboxScope), Separates digest s t := by
  intro h
  let s := agentProject ⟨['i', ':', 'u'], by decide, by decide⟩ ⟨['a'], by decide, by decide⟩
    ⟨['p'], by decide, by decide⟩
  let t := agentProject ⟨['i'], by decide, by decide⟩ ⟨['u', ':', 'a'], by decide, by decide⟩
    ⟨['p'], by decide, by decide⟩
  have hsame : s.cacheKey = t.cacheKey := by decide
  have heq := (h ⟨id, Function.injective_id⟩ s t).cacheKey hsame
  simp [s, t] at heq

end SandboxScope
end Yuanlei.SandboxIdentity
