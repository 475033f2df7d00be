import Yuanlei.Coding.Credentials
import Yuanlei.Git.Worktrees
import Yuanlei.Lib.JsonCanonical
import Yuanlei.Skill.Service

/-!
# The execution context and the manifest of a run

Before a run is executed, its context is made from the configuration of the agent, the files of the
user's workspace and the skills that the user may read.  The manifest holds the identifiers and
digests of what the context was made from, and its fingerprint is stored once for all attempts.

What the platform holds apart from the workspace and the task's worktrees is a
`RunConfiguration`.  Decoding of bytes, the scan of the personal skills and the reading of a
skill's text are parameters.

Main definitions:

- `prepareRunExecution`: the context and the manifest of one attempt.
- `fingerprint`: the digest of a manifest.
-/

namespace Yuanlei.RunManifest

open Permission (Conversions ConfigError)
open SkillService (ResolvedSkill SkillTable listAccessibleSkills normalizeStringList)
open ProjectGit (GitTables)

/-! ## Parameters -/

/-- What lies at a path of the workspace. -/
inductive FileEntry where
  | absent
  | directory
  | unreadable
  | regular (content : List UInt8)
deriving DecidableEq

abbrev Files := String → FileEntry

/-- The language and the readers of skills. -/
structure Platform (F : Type) where
  text : Json.FloatText F
  conv : Conversions F
  sha : CodingCredentials.Sha256
  /-- `bytes.decode("utf-8", errors="replace")` -/
  decode : List UInt8 → String
  /-- `_scan_personal_skills` -/
  scanPersonalSkills : Files → List ResolvedSkill
  /-- The root `SKILL.md` of a skill, if it can be read. -/
  skillText : Files → ResolvedSkill → Option String
  defaultSummaryPrompt : String

variable {F : Type} (p : Platform F)

inductive PrepareError where
  | config (e : ConfigError)
  | value (message : String)
  | runtime (message : String)
  | key (slug : String)
deriving DecidableEq

/-! ## Contexts -/

/-- The configurable fields of `BaseContext` with their defaults. -/
def baseFields : List (String × Json F) :=
  [("system_prompt", .str "You are a helpful assistant."), ("model", .str ""),
    ("tool_approval_mode", .str "default"), ("tools", .null), ("knowledges", .null),
    ("mcps", .null), ("skills", .null), ("preload_skills", .arr []),
    ("summary_threshold", .int 100), ("summary_keep_messages", .int 10),
    ("summary_prompt", .str p.defaultSummaryPrompt),
    ("summary_tool_result_token_limit", .int 300), ("max_execution_steps", .int 300),
    ("model_retry_times", .int 2)]

def baseNames : List String :=
  ["system_prompt", "model", "tool_approval_mode", "tools", "knowledges", "mcps", "skills",
    "preload_skills", "summary_threshold", "summary_keep_messages", "summary_prompt",
    "summary_tool_result_token_limit", "max_execution_steps", "model_retry_times"]

/-- A backend with the configurable fields that its context adds. -/
structure Backend (F : Type) where
  id : String
  extraFields : Json.Dict F
  disjoint : ∀ name ∈ baseNames, name ∉ extraFields.fields.map Prod.fst

/-- The names of the configurable fields. -/
def Backend.names (backend : Backend F) : List String :=
  baseNames ++ backend.extraFields.fields.map Prod.fst

theorem Backend.nodup_names (backend : Backend F) : backend.names.Nodup := by
  refine List.nodup_append.mpr ⟨by decide, backend.extraFields.wellFormed.1, ?_⟩
  intro a ha b hb hab
  exact backend.disjoint a ha (hab ▸ hb)

/-- The configurable attributes of a context. -/
abbrev Context (F : Type) := String → Json F

def Context.set (context : Context F) (name : String) (value : Json F) : Context F :=
  fun other => if other = name then value else context other

/-- What an attempt reads besides the workspace and the worktrees of the task. -/
structure RunConfiguration (F : Type) where
  runType : String
  agentSlug : String
  backend : Backend F
  /-- The context of the agent's configuration. -/
  configured : Json.Dict F
  /-- The override of the project, empty if there is none. -/
  projectOverride : Json.Dict F
  /-- The fields of the input payload that are read. -/
  payloadModelSpec : Json F
  payloadToolApprovalMode : Json F
  parentThreadId : String
  payloadWellFormed : payloadModelSpec.WellFormed ∧ payloadToolApprovalMode.WellFormed
  defaultModel : String
  availableTools : List String
  availableKnowledges : List String
  availableMcps : List String
  availableSubagents : List String
  user : Permission.User
  skillTable : SkillTable F
  codeRevision : String
  runtimeScopeId : String
  /-- The purposes of the project's repositories. -/
  repositoryPurpose : String → String

/-- The workspace of the user and the worktrees. -/
structure World where
  files : Files
  git : GitTables

/-- `update_config` with the override of the project. -/
def configuredContext (c : RunConfiguration F) : Context F := fun name =>
  match c.projectOverride.fields.lookup name with
  | some value => value
  | none =>
    match c.configured.fields.lookup name with
    | some value => value
    | none => ((baseFields p ++ c.backend.extraFields.fields).lookup name).getD .null

/-- The model and the approval mode of the request. -/
def requestedContext (c : RunConfiguration F) : Context F :=
  let context := configuredContext p c
  let context :=
    if Permission.truthy p.conv c.payloadModelSpec then context.set "model" c.payloadModelSpec
    else context
  if Permission.truthy p.conv c.payloadToolApprovalMode then
    context.set "tool_approval_mode" c.payloadToolApprovalMode
  else context

/-! ## The workspace prompt -/

def workspaceAgentsPromptMaxBytes : Nat :=
  64 * 1024

/-- The section of one file, or nothing if it is missing, not readable or blank. -/
def workspaceSection (files : Files) (filename : String) : Option String :=
  match files ("/agents/" ++ filename) with
  | .regular content =>
    let prompt := PyText.strip (p.decode (content.take workspaceAgentsPromptMaxBytes))
    if prompt = "" then none
    else
      some ("用户工作区 agents/" ++ filename ++ " 内容：\n" ++
        if workspaceAgentsPromptMaxBytes < content.length then
          prompt ++ "\n\n[" ++ filename ++ " 内容已截断]"
        else prompt)
  | _ => none

def loadWorkspaceAgentContext (files : Files) : String :=
  String.intercalate "\n\n" (["AGENTS.md", "USER.md"].filterMap (workspaceSection p files))

/-- `str(context.system_prompt or "").rstrip()` -/
def basePrompt (value : Json F) : List Char :=
  (if Permission.truthy p.conv value then p.conv.str value else "").toList.rdropWhile
    PyText.isSpace

/-- The prompt with the text of the workspace behind it. -/
def appendPrompt (value : Json F) (workspacePrompt : String) : Json F :=
  if workspacePrompt = "" then value
  else if basePrompt p value = [] then .str workspacePrompt
  else .str (String.ofList (basePrompt p value ++ "\n\n".toList ++ workspacePrompt.toList))

def appendWorkspaceAgentPrompt (context : Context F) (files : Files) : Context F :=
  context.set "system_prompt"
    (appendPrompt p (context "system_prompt") (loadWorkspaceAgentContext p files))

/-- The default model of the system takes the place of a blank one. -/
def withDefaultModel (c : RunConfiguration F) (context : Context F) : Context F :=
  let model := context "model"
  let text := if Permission.truthy p.conv model then p.conv.str model else ""
  if PyText.strip text = "" then context.set "model" (.str c.defaultModel) else context

/-! ## Resources -/

/-- A list of keys as a value. -/
def strings (keys : List String) : Json F :=
  .arr (keys.map .str)

/-- The strings of a list. -/
def stringItems (items : List (Json F)) : List String :=
  items.filterMap fun item =>
    match item with
    | .str s => some s
    | _ => none

def normalizeSelectedResourceKeys (value : Json F) (available : List String) : List String :=
  match value with
  | .arr items => (normalizeStringList (stringItems items)).filter fun key => key ∈ available
  | _ => []

/-- One resource field; `emptyMeansAll` holds of the subagents. -/
def resolveResource (emptyMeansAll : Bool) (current : Json F) (available : List String) :
    List String :=
  match current with
  | .null => available
  | .arr [] => if emptyMeansAll then available else []
  | value => normalizeSelectedResourceKeys value available

/-- `normalize_agent_context_config` with the slugs of the accessible skills. -/
def normalizeResources (c : RunConfiguration F) (context : Context F) (skillSlugs : List String) :
    Context F :=
  let skills := resolveResource false (context "skills") skillSlugs
  let context := context.set "tools" (strings (resolveResource false (context "tools")
    c.availableTools))
  let context := context.set "knowledges" (strings (resolveResource false (context "knowledges")
    c.availableKnowledges))
  let context := context.set "mcps" (strings (resolveResource false (context "mcps")
    c.availableMcps))
  let context :=
    if "subagents" ∈ c.backend.names then
      context.set "subagents" (strings (resolveResource true (context "subagents")
        c.availableSubagents))
    else context
  let context := context.set "preload_skills"
    (strings (normalizeSelectedResourceKeys (context "preload_skills") skills))
  context.set "skills" (strings skills)

/-! ## Skills of the run -/

/-- The first skill under a slug. -/
def itemBySlug (items : List ResolvedSkill) (slug : String) : Option ResolvedSkill :=
  items.find? fun item => item.slug == slug

/-- The search of `expand_skill_closure` below one slug.  A nested call has the slugs above it in
`seen`, so as many nested calls as there are skills are enough. -/
def expandFrom (items : List ResolvedSkill) : Nat → List String → String → List String
  | 0, seen, _ => seen
  | fuel + 1, seen, slug =>
    if slug ∈ seen then seen
    else
      match itemBySlug items slug with
      | none => seen
      | some item =>
        (normalizeStringList item.skillDependencies).foldl (expandFrom items fuel)
          (seen ++ [slug])

/-- `expand_skill_closure`: the slugs in the order in which they are first reached. -/
def expandSkillClosure (items : List ResolvedSkill) (slugs : List String) : List String :=
  (normalizeStringList slugs).foldl (expandFrom items (items.length + 1)) []

def readPreloadedSkillContents (files : Files) (items : List ResolvedSkill) :
    List String → Except PrepareError (List (String × String))
  | [] => .ok []
  | slug :: slugs =>
    match (itemBySlug items slug).bind (p.skillText files) with
    | none => .error (.runtime ("预加载 Skill '" ++ slug ++ "' 失败：根级 SKILL.md 不可读"))
    | some content => do
        let rest ← readPreloadedSkillContents files items slugs
        .ok ((slug, content) :: rest)

/-- The part of the runtime scope that the manifest is made from. -/
structure SkillScope where
  contextSkills : List String
  contextPreloadSkills : List String
  skillMetadata : List (String × ResolvedSkill)
  preloadedSkills : List String
  preloadedSkillContents : List (String × String)

/-- `resolve_runtime_skills_for_context` on the selected and the preloaded skills. -/
def resolveRuntimeSkills (files : Files) (items : List ResolvedSkill) (skills preloads : List String) :
    Except PrepareError SkillScope := do
  let contextSkills := (normalizeStringList skills).filter fun slug => (itemBySlug items slug).isSome
  let effectiveSkills := expandSkillClosure items contextSkills
  let contextPreloadSkills := (normalizeStringList preloads).filter fun slug => slug ∈ contextSkills
  let preloadedSkills := expandSkillClosure items contextPreloadSkills
  let preloadedSkillContents ← readPreloadedSkillContents p files items preloadedSkills
  .ok
    { contextSkills
      contextPreloadSkills
      skillMetadata := effectiveSkills.filterMap fun slug =>
        (itemBySlug items slug).map fun item => (slug, item)
      preloadedSkills
      preloadedSkillContents }

/-- The keys of a resource field. -/
def resourceKeys : Json F → List String
  | .arr items => stringItems items
  | _ => []

/-- `prepare_agent_runtime_context`: the prepared context and the skills. -/
def prepareAgentRuntimeContext (c : RunConfiguration F) (context : Context F) (files : Files) :
    Except PrepareError (Context F × SkillScope) := do
  let context := appendWorkspaceAgentPrompt p context files
  let context := withDefaultModel p c context
  let accessible ← (listAccessibleSkills p.conv c.skillTable c.user true
    (p.scanPersonalSkills files)).mapError PrepareError.config
  let items := accessible.filter fun item => item.slug ≠ ""
  let context := normalizeResources c context (items.map ResolvedSkill.slug)
  let scope ← resolveRuntimeSkills p files items (resourceKeys (context "skills"))
    (resourceKeys (context "preload_skills"))
  let context := context.set "skills" (strings scope.contextSkills)
  .ok (context.set "preload_skills" (strings scope.contextPreloadSkills), scope)

/-! ## The manifest -/

/-- A skill of the manifest, with the text whose digest is stored. -/
structure SkillEntry where
  slug : String
  version : Option String
  contentHash : Option String
  preloadContent : Option String
deriving DecidableEq

/-- The entry of one skill. -/
def skillEntry (scope : SkillScope) (slug : String) : Except PrepareError SkillEntry :=
  match scope.skillMetadata.lookup slug with
  | none => .error (.key slug)
  | some item =>
    .ok
      { slug
        version := if item.sourceScope = "personal" then none else item.version
        contentHash := if item.sourceScope = "personal" then none else item.contentHash
        preloadContent := scope.preloadedSkillContents.lookup slug }

def buildSkillManifestEntries (skills : List String) (scope : SkillScope) :
    Except PrepareError (List SkillEntry) :=
  (skills ++ scope.preloadedSkills.filter fun slug => slug ∉ skills).mapM (skillEntry scope)

/-- The digest of a text. -/
def hash (s : String) : String :=
  String.ofList (p.sha.hexdigest s.toList)

def optionalStr : Option String → Json F
  | none => .null
  | some s => .str s

def SkillEntry.toJson (entry : SkillEntry) : Json F :=
  .obj ([("slug", .str entry.slug), ("version", optionalStr entry.version),
      ("content_hash", optionalStr entry.contentHash)] ++
    match entry.preloadContent with
    | none => []
    | some content => [("preload_content_hash", .str (hash p content))])

/-- The fields of a repository that do not change while its worktree is prepared. -/
structure GitIdentity where
  name : String
  repositoryId : String
  purpose : String
  taskPurpose : String
  baseBranch : String
  selectionSource : ProjectGit.SelectionSource
deriving DecidableEq

def selectionSourceText : ProjectGit.SelectionSource → String
  | .user => "user"
  | .agent => "agent"
  | .legacy => "legacy"

def GitIdentity.toJson (repository : GitIdentity) : Json F :=
  .obj
    [("alias", .str repository.name), ("repository_id", .str repository.repositoryId),
      ("purpose", .str repository.purpose), ("task_purpose", .str repository.taskPurpose),
      ("base_branch", .str repository.baseBranch),
      ("selection_source", .str (selectionSourceText repository.selectionSource))]

/-- The repositories of the task, oldest allocation first. -/
def gitRepositories (c : RunConfiguration F) (git : GitTables) : List GitIdentity :=
  (git.listScopeWorktrees c.runtimeScopeId c.user.uid).map fun e =>
    { name := ((git.repositories.get e.1.repositoryId).map ProjectGit.ProjectGitRepository.name).getD ""
      repositoryId := e.1.repositoryId
      purpose := c.repositoryPurpose e.1.repositoryId
      taskPurpose := e.2.intent.taskPurpose
      baseBranch := e.2.intent.baseBranch
      selectionSource := e.2.selectionSource }

def manifestLimitFields : List String :=
  ["max_execution_steps", "model_retry_times", "summary_threshold", "summary_keep_messages",
    "summary_tool_result_token_limit"]

/-- The configurable fields of a prepared context. -/
def effectiveConfig (backend : Backend F) (context : Context F) : Json F :=
  .obj (backend.names.map fun name => (name, context name))

/-- `canonical_json` and SHA-256. -/
def digest (payload : Json F) : String :=
  String.ofList (p.sha.hexdigest (Json.canonical p.text payload))

/-- `model_spec if isinstance(model_spec, str) and model_spec else None` -/
def modelSpec : Json F → Json F
  | .str s => if s = "" then .null else .str s
  | _ => .null

def buildManifestPayload (c : RunConfiguration F) (context : Context F)
    (skillEntries : List SkillEntry) (repositories : List GitIdentity) : Json F :=
  let config := effectiveConfig c.backend context
  .obj
    [("manifest_version", .int 3), ("run_type", .str c.runType),
      ("agent", .obj [("slug", .str c.agentSlug), ("backend_id", .str c.backend.id)]),
      ("model", .obj [("spec", modelSpec (context "model"))]),
      ("tool_approval_mode", context "tool_approval_mode"),
      ("resources", .obj
        [("tools", strings (resourceKeys (context "tools"))),
          ("mcps", strings (resourceKeys (context "mcps"))),
          ("skills", .arr (skillEntries.map (SkillEntry.toJson p))),
          ("git_repositories", .arr (repositories.map GitIdentity.toJson))]),
      ("limits", .obj (manifestLimitFields.map fun name => (name, context name))),
      ("config_digest", .str (digest p config)),
      ("code_revision", .str
        (if PyText.strip c.codeRevision = "" then "unresolved" else PyText.strip c.codeRevision))]

/-- What an attempt has prepared. -/
structure PreparedRunExecution (F : Type) where
  manifest : Json F
  context : Context F
  skillEntries : List SkillEntry

/-- `prepare_run_execution`, from the context on. -/
def prepareRunExecution (c : RunConfiguration F) (w : World) :
    Except PrepareError (PreparedRunExecution F) := do
  if c.runType = "subagent" ∧ PyText.strip c.parentThreadId = "" then
    .error (.value "子智能体运行缺少必需的 parent_thread_id")
  let prepared ← prepareAgentRuntimeContext p c (requestedContext p c) w.files
  let skillEntries ← buildSkillManifestEntries prepared.2.contextSkills prepared.2
  .ok
    { manifest := buildManifestPayload p c prepared.1 skillEntries (gitRepositories c w.git)
      context := prepared.1
      skillEntries }

/-- `compute_manifest_fingerprint` -/
def fingerprint (prepared : PreparedRunExecution F) : String :=
  digest p prepared.manifest

/-- `_require_persisted_manifest_match` after a manifest has been recorded. -/
def requirePersistedManifestMatch (recorded current : String) : Except PrepareError Unit :=
  if recorded = current then .ok ()
  else .error (.runtime "运行资产已在重试前变化，与已固化 manifest 不一致")

end Yuanlei.RunManifest
