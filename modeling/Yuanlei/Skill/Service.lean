import Yuanlei.Lib.Table
import Yuanlei.Skill.Permission

/-!
# Shared skills

The table of shared skills with its writers and readers.  Every writer is one transaction that
returns the new table or raises; the files of a skill are left out, and what the writers learn
from the file system is an argument.  Skills are addressed by their slug, which is unique.

Main results:

- `listAccessibleSkills`: the effective skills of a user.
- `updateSkillShareConfig`, `updateSkillEnabled`, `updateSkillDependencies`,
  `deleteSkill`, `confirmSkillInstallDraft` and `initBuiltinSkills`: the writers.
-/

namespace Yuanlei.SkillService

open Permission

/-! ## Rows -/

structure Skill (F : Type) where
  id : Nat
  name : String
  description : String
  sourceType : String
  toolDependencies : List String
  mcpDependencies : List String
  skillDependencies : List String
  dirPath : String
  version : Option String
  contentHash : Option String
  shareConfig : Json F
  enabled : Bool
  createdBy : Option String
  updatedBy : Option String
  updatedAt : Nat

/-- The rows by slug and the next primary key. -/
structure SkillTable (F : Type) where
  skills : Table String (Skill F)
  nextId : Nat

/-- The table without skills. -/
def SkillTable.empty {F : Type} : SkillTable F where
  skills := Table.empty
  nextId := 1

variable {F : Type} (conv : Conversions F)

def adminRoles : List String :=
  ["admin", "superadmin"]

def builtinSkillOperator : String :=
  "builtin-system"

def builtinSkillShareConfig : Json F :=
  Scope.global.dict

/-- Strip the members of a list and drop empty ones and repetitions. -/
def normalizeStringList (values : List String) : List String :=
  values.foldl
    (fun normalized value =>
      let item := PyText.strip value
      if item = "" ∨ item ∈ normalized then normalized else normalized ++ [item])
    []

/-- The characters of a slug between its hyphens. -/
def isSlugChar (c : Char) : Bool :=
  ('a' ≤ c && c ≤ 'z') || ('0' ≤ c && c ≤ '9')

/-- `SKILL_SLUG_PATTERN`: words of small letters and digits, joined by hyphens. -/
def isValidSkillSlug (slug : String) : Bool :=
  ((PyText.strip slug).toList.splitOn '-').all fun word => !word.isEmpty && word.all isSlugChar

def isBuiltinSkill (item : Skill F) : Bool :=
  item.sourceType == "builtin"

def getAllowedSkillAccessLevels (user : User) : List AccessLevel :=
  if user.role ∈ adminRoles then [.global, .department, .user] else [.user]

/-- The configuration that every built-in skill is meant to have. -/
def builtinPermissionConfig : PermissionConfig where
  readScope := some .global
  manageScope := none

/-- The configuration that a writer stores. -/
def normalizeSkillShareConfig (shareConfig : Json F) (operatorUid sourceType : String)
    (allowedAccessLevels : Option (List AccessLevel)) : Except ConfigError PermissionConfig :=
  if sourceType = "builtin" then .ok builtinPermissionConfig
  else
    let default : PermissionConfig := { readScope := some (.user [operatorUid]), manageScope := none }
    normalizePermissionConfig conv (if truthy conv shareConfig then shareConfig else default.dict)
      { allowedAccessLevels
        unauthorizedAccessLevelMessage := "当前用户无权使用该 Skill 共享范围"
        strict := true }

/-! ## Permissions on a skill -/

/-- `resolve_skill_permission`; only effective skills have a source scope. -/
def resolveSkillPermission (user : User) (sourceScope createdBy : Option String)
    (shareConfig : Json F) : Except ConfigError ResourcePermission :=
  if sourceScope = some "personal" then
    .ok (if createdBy.getD "" = user.uid then .manage else .none)
  else resolveResourcePermission conv user createdBy shareConfig skillPermissionPolicy

/-- The permission on a row of the table. -/
def Skill.permission (user : User) (skill : Skill F) : Except ConfigError ResourcePermission :=
  resolveSkillPermission conv user none skill.createdBy skill.shareConfig

def userCanAccessSkill (user : User) (skill : Skill F) (requireEnabled : Bool) :
    Except ConfigError Bool :=
  if requireEnabled && !skill.enabled then .ok false
  else do
    let permission ← skill.permission conv user
    .ok (permission != .none)

def userCanManageSkill (user : User) (skill : Skill F) : Except ConfigError Bool :=
  if isBuiltinSkill skill then .ok (user.role ∈ adminRoles)
  else do
    let permission ← skill.permission conv user
    .ok (permission == .manage)

/-- One scope covers another. -/
def scopeContains : Scope → Scope → Bool
  | .global, _ => true
  | _, .global => false
  | .department containerIds, .department targetIds => targetIds.all containerIds.contains
  | .user containerUids, .user targetUids => targetUids.all containerUids.contains
  | _, _ => false

/-- The scopes of a configuration, or the owner where none is set. -/
def scopesOrOwner (config : PermissionConfig) (createdBy : Option String) : List Scope :=
  if config.scopes = [] then [.user [createdBy.getD ""]] else config.scopes

def canSkillDependOn (parent dependency : Skill F) : Except ConfigError Bool :=
  if !dependency.enabled then .ok false
  else if isBuiltinSkill dependency then .ok true
  else do
    let depConfig ← normalizePermissionConfig conv dependency.shareConfig
    let parentConfig ← normalizePermissionConfig conv parent.shareConfig
    let dependencyScopes := scopesOrOwner depConfig dependency.createdBy
    let parentScopes := scopesOrOwner parentConfig parent.createdBy
    .ok (parentScopes.all fun parentScope =>
      dependencyScopes.any fun dependencyScope => scopeContains dependencyScope parentScope)

/-! ## Lists -/

/-- The order of the lists: the latest change first. -/
def listOrder (left right : String × Skill F) : Bool :=
  right.2.updatedAt < left.2.updatedAt ||
    (right.2.updatedAt == left.2.updatedAt && right.2.id ≤ left.2.id)

def listAll (t : SkillTable F) : List (String × Skill F) :=
  t.skills.rows.mergeSort listOrder

def listEnabled (t : SkillTable F) : List (String × Skill F) :=
  (t.skills.rows.filter fun item => item.2.enabled).mergeSort listOrder

/-- The items that the user can access, in order. -/
def filterAccessible (user : User) (requireEnabled : Bool) :
    List (String × Skill F) → Except ConfigError (List (String × Skill F))
  | [] => .ok []
  | item :: items => do
      let accessible ← userCanAccessSkill conv user item.2 requireEnabled
      let rest ← filterAccessible user requireEnabled items
      .ok (if accessible then item :: rest else rest)

def listAccessibleSharedSkills (t : SkillTable F) (user : User) (requireEnabled : Bool) :
    Except ConfigError (List (String × Skill F)) :=
  filterAccessible conv user requireEnabled (if requireEnabled then listEnabled t else listAll t)

/-- A skill as it is effective for a user. -/
structure ResolvedSkill where
  slug : String
  name : String
  description : String
  sourceType : String
  sourceScope : String
  sourceDir : String
  enabled : Bool
  createdBy : Option String
  shareConfig : Option PermissionConfig
  toolDependencies : List String
  mcpDependencies : List String
  skillDependencies : List String
  version : Option String
  contentHash : Option String
  overridesShared : Bool
  shadowedByPersonal : Bool

def resolvedSharedSkill (slug : String) (item : Skill F) (shadowedByPersonal : Bool) :
    Except ConfigError ResolvedSkill := do
  let shareConfig ← normalizePermissionConfig conv item.shareConfig
  .ok
    { slug
      name := item.name
      description := item.description
      sourceType := item.sourceType
      sourceScope := if isBuiltinSkill item then "builtin" else "shared"
      sourceDir := item.dirPath
      enabled := item.enabled
      createdBy := item.createdBy
      shareConfig := some shareConfig
      toolDependencies := normalizeStringList item.toolDependencies
      mcpDependencies := normalizeStringList item.mcpDependencies
      skillDependencies := normalizeStringList item.skillDependencies
      version := item.version
      contentHash := item.contentHash
      overridesShared := false
      shadowedByPersonal }

/-- The effective shared skills, in order. -/
def resolveShared (personalSlugs : List String) :
    List (String × Skill F) → Except ConfigError (List ResolvedSkill)
  | [] => .ok []
  | item :: items => do
      let resolved ← resolvedSharedSkill conv item.1 item.2 (personalSlugs.contains item.1)
      let rest ← resolveShared personalSlugs items
      .ok (resolved :: rest)

/-- Assigning a slug of a dictionary: its place is kept if it has one. -/
def assignEffective (effective : List ResolvedSkill) (item : ResolvedSkill) :
    List ResolvedSkill :=
  if effective.any fun other => other.slug == item.slug then
    effective.map fun other => if other.slug == item.slug then item else other
  else effective ++ [item]

/-- The skills of a user, with the personal ones that the scan of the workspace has found. -/
def listAccessibleSkills (t : SkillTable F) (user : User) (requireEnabled : Bool)
    (personalItems : List ResolvedSkill) : Except ConfigError (List ResolvedSkill) := do
  let sharedItems ← listAccessibleSharedSkills conv t user requireEnabled
  let shared ← resolveShared conv (personalItems.map ResolvedSkill.slug) sharedItems
  .ok (personalItems.foldl
    (fun effective item =>
      assignEffective effective
        { item with overridesShared := effective.any fun other => other.slug == item.slug })
    shared)

/-! ## Writers -/

def getSkillOrRaise (t : SkillTable F) (slug : String) : Except ConfigError (String × Skill F) :=
  let slug := PyText.strip slug
  if !isValidSkillSlug slug then .error (.valueError "无效 skill slug")
  else
    match t.skills.get slug with
    | none => .error (.valueError ("技能 '" ++ slug ++ "' 不存在"))
    | some item => .ok (slug, item)

def getManageableSkillOrRaise (t : SkillTable F) (user : User) (slug : String) :
    Except ConfigError (String × Skill F) := do
  let item ← getSkillOrRaise t slug
  let manageable ← userCanManageSkill conv user item.2
  if manageable then .ok item
  else .error (.valueError ("技能 '" ++ slug ++ "' 不存在或无权管理"))

def ensureNonBuiltin (item : Skill F) : Except ConfigError Unit :=
  if isBuiltinSkill item then .error (.valueError "内置 skill 不允许执行该操作") else .ok ()

/-- Write one row. -/
def SkillTable.modify (t : SkillTable F) (slug : String) (f : Skill F → Skill F) : SkillTable F :=
  { t with skills := t.skills.modify slug f }

/-- `SkillRepository.create`; the insertion fails if the slug is taken. -/
def SkillTable.create (t : SkillTable F) (slug : String) (skill : Skill F) :
    Except ConfigError (SkillTable F) :=
  match t.skills.insert slug { skill with id := t.nextId } with
  | none => .error (.valueError "duplicate key value violates unique constraint")
  | some skills => .ok { skills, nextId := t.nextId + 1 }

def updateSkillShareConfig (t : SkillTable F) (slug : String) (shareConfig : Json F)
    (operator : User) (now : Nat) : Except ConfigError (SkillTable F) := do
  let item ← getManageableSkillOrRaise conv t operator slug
  ensureNonBuiltin item.2
  let normalized ← normalizeSkillShareConfig conv shareConfig operator.uid item.2.sourceType
    (some (getAllowedSkillAccessLevels operator))
  .ok (t.modify item.1 fun row =>
    { row with shareConfig := normalized.dict, updatedBy := some operator.uid, updatedAt := now })

def updateSkillEnabled (t : SkillTable F) (slug : String) (enabled : Bool) (operator : User)
    (now : Nat) : Except ConfigError (SkillTable F) := do
  let item ← getManageableSkillOrRaise conv t operator slug
  .ok (t.modify item.1 fun row =>
    { row with enabled, updatedBy := some operator.uid, updatedAt := now })

/-- The dependencies of a request. -/
structure SkillDependencies where
  tools : List String
  mcps : List String
  skills : List String

/-- The requested skills that the parent may not depend on. -/
def forbiddenSkills (parent : Skill F) (available : List (String × Skill F)) :
    List String → Except ConfigError (List String)
  | [] => .ok []
  | name :: names => do
      let allowed ← match available.lookup name with
        | none => .ok false
        | some dependency => canSkillDependOn conv parent dependency
      let rest ← forbiddenSkills parent available names
      .ok (if allowed then rest else name :: rest)

/-- `_validate_dependencies`, with the tools and the enabled MCP servers of the platform. -/
def validateDependencies (parentSlug : String) (parent : Skill F) (requested : SkillDependencies)
    (availableTools availableMcps : List String) (availableSkills : List (String × Skill F)) :
    Except ConfigError SkillDependencies := do
  let tools := normalizeStringList requested.tools
  let mcps := normalizeStringList requested.mcps
  let skills := normalizeStringList requested.skills
  let invalidTools := tools.filter fun name => name ∉ availableTools
  if invalidTools ≠ [] then
    .error (.valueError ("存在无效工具依赖: " ++ String.intercalate ", " invalidTools))
  let invalidMcps := mcps.filter fun name => name ∉ availableMcps
  if invalidMcps ≠ [] then
    .error (.valueError ("存在无效 MCP 依赖: " ++ String.intercalate ", " invalidMcps))
  let invalidSkills := skills.filter fun name => (availableSkills.lookup name).isNone
  if invalidSkills ≠ [] then
    .error (.valueError ("存在无效 skill 依赖: " ++ String.intercalate ", " invalidSkills))
  if parentSlug ∈ skills then .error (.valueError "skill_dependencies 不允许包含自身")
  let forbidden ← forbiddenSkills conv parent availableSkills skills
  if forbidden ≠ [] then
    .error (.valueError ("存在权限范围不匹配的 skill 依赖: " ++ String.intercalate ", " forbidden))
  .ok { tools, mcps, skills }

def updateSkillDependencies (t : SkillTable F) (slug : String) (requested : SkillDependencies)
    (operator : User) (availableTools availableMcps : List String) (now : Nat) :
    Except ConfigError (SkillTable F) := do
  let item ← getManageableSkillOrRaise conv t operator slug
  ensureNonBuiltin item.2
  let availableSkills ← listAccessibleSharedSkills conv t operator true
  let dependencies ←
    validateDependencies conv item.1 item.2 requested availableTools availableMcps availableSkills
  .ok (t.modify item.1 fun row =>
    { row with
      toolDependencies := dependencies.tools
      mcpDependencies := dependencies.mcps
      skillDependencies := dependencies.skills
      updatedBy := some operator.uid
      updatedAt := now })

/-- `delete_skill`; unlike its siblings it takes the slug as it is given. -/
def deleteSkill (t : SkillTable F) (slug : String) (operator : User) :
    Except ConfigError (SkillTable F) :=
  match t.skills.get slug with
  | none => .error (.valueError ("技能 '" ++ slug ++ "' 不存在"))
  | some item => do
      let manageable ← userCanManageSkill conv operator item
      if manageable then do
        ensureNonBuiltin item
        .ok { t with skills := t.skills.erase slug }
      else .error (.valueError ("技能 '" ++ slug ++ "' 不存在或无权管理"))

/-! ## Installation from a draft -/

/-- What the snapshot of a skill directory says about the skill. -/
structure SkillSnapshot where
  name : String
  description : String
  toolDependencies : List String
  mcpDependencies : List String
  skillDependencies : List String

/-- An entry of a draft with what its installation finds in the file system. -/
structure DraftItem where
  slug : String
  success : Bool
  error : String
  /-- A directory with the slug exists below the skills root. -/
  targetExists : Bool
  /-- The source lies in the draft directory. -/
  insideDraft : Bool
  /-- The copied and published snapshot, or the text of the exception. -/
  snapshot : Except String SkillSnapshot

structure SkillDraft where
  createdBy : Option String
  sourceType : Option String
  items : List DraftItem

structure InstallResult where
  slug : String
  success : Bool
  error : Option String
deriving DecidableEq

/-- `_load_and_select_draft_items` on a draft that could be loaded. -/
def selectDraftItems (draft : SkillDraft) (slugs : Option (List String)) (operator : User) :
    Except ConfigError (String × List DraftItem) :=
  if draft.createdBy ≠ some operator.uid ∧ operator.role ∉ adminRoles then
    .error (.valueError "无权确认该安装草稿")
  else
    match draft.sourceType with
    | none => .error (.valueError "无效的安装草稿来源")
    | some sourceType =>
      if sourceType ∉ ["upload", "remote"] then .error (.valueError "无效的安装草稿来源")
      else
        match slugs with
        | none => .ok (sourceType, draft.items)
        | some selected =>
          if selected = [] then .error (.valueError "至少选择一个 Skill")
          else if ∃ slug ∈ selected, slug ∉ draft.items.map fun item => PyText.strip item.slug then
            .error (.valueError "确认安装包含草稿外的 Skill")
          else
            .ok (sourceType, draft.items.filter fun item => PyText.strip item.slug ∈ selected)

/-- The installation of one entry: a transaction of its own. -/
def installDraftItem (sourceType : String) (shareConfig : PermissionConfig) (operator : User)
    (now : Nat) (t : SkillTable F) (item : DraftItem) : SkillTable F × InstallResult :=
  let slug := PyText.strip item.slug
  if !item.success then (t, ⟨slug, false, some item.error⟩)
  else if !isValidSkillSlug slug then (t, ⟨slug, false, some "无效 skill slug"⟩)
  else if (t.skills.get slug).isSome || item.targetExists then
    (t, ⟨slug, false, some "Skill slug 已被占用，请重新解析安装"⟩)
  else if !item.insideDraft then (t, ⟨slug, false, some "安装草稿路径非法"⟩)
  else
    match item.snapshot with
    | .error message => (t, ⟨slug, false, some message⟩)
    | .ok parsed =>
      match t.create slug
        { id := 0
          name := parsed.name
          description := parsed.description
          sourceType
          toolDependencies := parsed.toolDependencies
          mcpDependencies := parsed.mcpDependencies
          skillDependencies := parsed.skillDependencies
          dirPath := "shared/" ++ slug
          version := none
          contentHash := none
          shareConfig := shareConfig.dict
          enabled := true
          createdBy := some operator.uid
          updatedBy := some operator.uid
          updatedAt := now } with
      | .error _ => (t, ⟨slug, false, some "duplicate key value violates unique constraint"⟩)
      | .ok t' => (t', ⟨slug, true, none⟩)

/-- The loop over the entries of a draft. -/
def installDraftItems (sourceType : String) (shareConfig : PermissionConfig) (operator : User)
    (now : Nat) : SkillTable F → List DraftItem → SkillTable F × List InstallResult
  | t, [] => (t, [])
  | t, item :: items =>
    let installed := installDraftItem sourceType shareConfig operator now t item
    let rest := installDraftItems sourceType shareConfig operator now installed.1 items
    (rest.1, installed.2 :: rest.2)

/-- `confirm_skill_install_draft`, from what loading the draft has returned. -/
def confirmSkillInstallDraft (t : SkillTable F) (draft : Except ConfigError SkillDraft)
    (shareConfig : Json F) (slugs : Option (List String)) (operator : User) (now : Nat) :
    Except ConfigError (SkillTable F × List InstallResult) := do
  let loaded ← draft
  let selected ← selectDraftItems loaded slugs operator
  let normalized ← normalizeSkillShareConfig conv shareConfig operator.uid selected.1
    (some (getAllowedSkillAccessLevels operator))
  .ok (installDraftItems selected.1 normalized operator now t selected.2)

/-! ## Built-in skills -/

structure BuiltinSpec where
  slug : String
  name : String
  description : String
  version : String
  toolDependencies : List String
  mcpDependencies : List String
  skillDependencies : List String
  contentHash : String

/-- The built-in skills of a release: one for each directory. -/
structure BuiltinSpecs where
  specs : List BuiltinSpec
  nodup : (specs.map BuiltinSpec.slug).Nodup

def BuiltinSpecs.slugs (specs : BuiltinSpecs) : List String :=
  specs.specs.map BuiltinSpec.slug

/-- A row that exists already takes over name, description and dependencies. -/
def syncBuiltinRow (spec : BuiltinSpec) (existing : Skill F) : Skill F :=
  let named :=
    if existing.name ≠ spec.name ∨ existing.description ≠ spec.description then
      { existing with name := spec.name, description := spec.description }
    else existing
  if normalizeStringList existing.toolDependencies ≠ spec.toolDependencies ∨
      normalizeStringList existing.mcpDependencies ≠ spec.mcpDependencies ∨
      normalizeStringList existing.skillDependencies ≠ spec.skillDependencies then
    { named with
      toolDependencies := spec.toolDependencies
      mcpDependencies := spec.mcpDependencies
      skillDependencies := spec.skillDependencies }
  else named

def updateBuiltinInstall (spec : BuiltinSpec) (updatedBy : String) (now : Nat) (item : Skill F) :
    Skill F :=
  { item with
    version := some spec.version
    contentHash := some spec.contentHash
    sourceType := "builtin"
    shareConfig := builtinPermissionConfig.dict
    updatedBy := some updatedBy
    updatedAt := now }

/-- The row of a built-in skill that has none yet. -/
def newBuiltinRow (spec : BuiltinSpec) (createdBy : String) (now : Nat) : Skill F where
  id := 0
  name := spec.name
  description := spec.description
  sourceType := "builtin"
  toolDependencies := spec.toolDependencies
  mcpDependencies := spec.mcpDependencies
  skillDependencies := spec.skillDependencies
  dirPath := "shared/" ++ spec.slug
  version := some spec.version
  contentHash := some spec.contentHash
  shareConfig := builtinSkillShareConfig
  enabled := true
  createdBy := some (if createdBy = "" then builtinSkillOperator else createdBy)
  updatedBy := some (if createdBy = "" then builtinSkillOperator else createdBy)
  updatedAt := now

/-- One round of the loop of `init_builtin_skills`. -/
def initBuiltinSkill (createdBy : String) (now : Nat) (t : SkillTable F) (spec : BuiltinSpec) :
    Except ConfigError (SkillTable F) :=
  match t.skills.get spec.slug with
  | none => t.create spec.slug (newBuiltinRow spec createdBy now)
  | some existing =>
    if isBuiltinSkill existing then
      .ok (t.modify spec.slug fun row =>
        updateBuiltinInstall spec createdBy now
          (syncBuiltinRow spec { row with dirPath := "shared/" ++ spec.slug }))
    else .error (.valueError ("内置 skill '" ++ spec.slug ++ "' 与已存在的非内置 skill 冲突"))

/-- `init_builtin_skills`: one transaction for all specifications. -/
def initBuiltinSkills (t : SkillTable F) (specs : BuiltinSpecs) (createdBy : String) (now : Nat) :
    Except ConfigError (SkillTable F) :=
  specs.specs.foldlM (initBuiltinSkill createdBy now) t

end Yuanlei.SkillService
