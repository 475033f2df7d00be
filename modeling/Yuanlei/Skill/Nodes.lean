import Yuanlei.Lib.FileTree
import Yuanlei.Lib.PosixPath
import Yuanlei.Lib.Transition
import Yuanlei.Lib.Utf8Stream
import Yuanlei.Skill.Service

/-!
# Files of a shared skill

Managers create, write and delete the files of an installed skill by a path relative to its
directory.  An installed skill has no links, since copying a skill rejects them and none of the three
operations makes one, so that a path resolves to its components.  A call that raises rolls the
transaction back and leaves what it has done to the files.

Main definitions:

- `parseSkillMarkdown`: what a `SKILL.md` says of its skill.
- `createSkillNode`, `updateSkillFile` and `deleteSkillNode`.
-/

namespace Yuanlei.SkillNodes

open FileTree FsM PosixPath Permission SkillService

/-! ## Front matter -/

/-- The members of a front matter as `str` gives them; one that is missing is empty. -/
structure Frontmatter where
  name : String
  slug : String
  description : String
deriving DecidableEq

/-- What the operations take from the platform. -/
structure Platform (F : Type) where
  conv : Conversions F
  /-- `yaml.safe_load`: an error, or the mapping if it is one. -/
  safeLoad : Text → Except String (Option Frontmatter)
  /-- `str.lower` -/
  lower : Name → Name
  /-- `get_skill_data_dir` -/
  dataDir : Path

/-- A call on the files that may raise. -/
abbrev Fs := FsM ConfigError

def missingFrontmatter : ConfigError :=
  .valueError "SKILL.md 缺少有效 frontmatter（--- ... ---）"

/-- The line that opens and closes a front matter. -/
def isFence (line : Text) : Bool :=
  PyText.stripChars line == "---".toList

/-- `_split_frontmatter`: the text of the front matter and the body. -/
def splitFrontmatter (content : Text) : Except ConfigError (Text × Text) :=
  if !"---".toList.isPrefixOf content then .error missingFrontmatter
  else
    match PyText.splitLinesKeependsFrom [] content with
    | [] => .error missingFrontmatter
    | first :: lines =>
      if !isFence first then .error missingFrontmatter
      else
        match lines.dropWhile fun line => !isFence line with
        | [] => .error missingFrontmatter
        | _ :: body =>
          .ok ((lines.takeWhile fun line => !isFence line).flatten, body.flatten)

def validateSkillDisplayName (name : String) : Except ConfigError String :=
  let name := PyText.strip name
  if name = "" then .error (.valueError "SKILL.md frontmatter 缺少 name")
  else if 128 < name.length then
    .error (.valueError "SKILL.md frontmatter.name 长度不能超过 128")
  else .ok name

def validateSkillSlugValue (slug fieldName : String) : Except ConfigError String :=
  let slug := PyText.strip slug
  if slug = "" then .error (.valueError ("SKILL.md frontmatter 缺少 " ++ fieldName))
  else if 128 < slug.length then
    .error (.valueError ("SKILL.md frontmatter." ++ fieldName ++ " 长度不能超过 128"))
  else if !isValidSkillSlug slug then
    .error (.valueError ("SKILL.md frontmatter." ++ fieldName ++ " 必须是小写字母/数字/短横线，且不能连续短横线"))
  else .ok slug

/-- What a `SKILL.md` says of its skill. -/
structure ParsedSkill where
  slug : String
  name : String
  description : String
deriving DecidableEq

/-- The slug of a front matter: its own, or its name. -/
def slugOf (data : Frontmatter) (name : String) : Except ConfigError String :=
  let rawSlug := PyText.strip data.slug
  if rawSlug ≠ "" then validateSkillSlugValue rawSlug "slug" else validateSkillSlugValue name "name"

/-- The members of a front matter after their checks. -/
def parseFrontmatter (data : Frontmatter) : Except ConfigError ParsedSkill := do
  let name ← validateSkillDisplayName data.name
  let slug ← slugOf data name
  let description := PyText.strip data.description
  if description = "" then .error (.valueError "SKILL.md frontmatter 缺少 description")
  else .ok { slug, name, description }

def parseSkillMarkdown {F : Type} (p : Platform F) (content : Text) :
    Except ConfigError ParsedSkill := do
  let split ← splitFrontmatter content
  match p.safeLoad split.1 with
  | .error e => .error (.valueError ("SKILL.md frontmatter YAML 解析失败: " ++ e))
  | .ok none => .error (.valueError "SKILL.md frontmatter 必须是对象")
  | .ok (some data) => parseFrontmatter data

/-! ## Paths -/

def skillMd : Name :=
  "SKILL.md".toList

/-- The suffixes of text files. -/
def textFileExtensions : List Name :=
  [".md", ".txt", ".py", ".js", ".ts", ".json", ".yaml", ".yml", ".toml", ".ini", ".cfg", ".conf",
    ".xml", ".html", ".css", ".sql", ".sh", ".bat", ".ps1", ".env", ".csv", ".tsv", ".rst",
    ".ipynb", ".vue", ".jsx", ".tsx"].map String.toList

/-- `PurePath.suffix`: from the last dot on, unless it is the first or the last character. -/
def suffixOf (name : Name) : Name :=
  let after := name.reverse.takeWhile (· != '.')
  let before := name.take (name.length - after.length - 1)
  if after.length = name.length ∨ after = [] ∨ before = [] then [] else '.' :: after.reverse

def isTextPath (lower : Name → Name) (target : Path) : Bool :=
  let name := target.getLastD []
  name == skillMd || textFileExtensions.contains (lower (suffixOf name))

/-- The text that is left of a relative path: stripped, with slashes for backslashes, and without
leading slashes. -/
def relativeText (relativePath : Text) : Text :=
  ((PyText.stripChars relativePath).map fun c => if c = '\\' then '/' else c).dropWhile (· == '/')

variable {F : Type}

/-- `_resolve_skill_dir`; the path of an installed skill has no component that leads up. -/
def resolveSkillDir (p : Platform F) (item : Skill F) : Path :=
  let dirPath := item.dirPath.toList
  if isAbsolute dirPath then components dirPath else p.dataDir ++ components dirPath

/-- `_resolve_relative_path` without `allow_root`: the resolved path and the text. -/
def resolveRelativePath (skillDir : Path) (relativePath : Text) : Fs (Path × Text) := do
  let rel := relativeText relativePath
  raiseIf (rel = []) (.app (.valueError "path 不能为空"))
  raiseIf (['.', '.'] ∈ components rel) (.app (.valueError "非法路径：不允许上级路径引用"))
  raiseIf ('\x00' ∈ rel) (.os .embeddedNull)
  pure (skillDir ++ components rel, rel)

/-! ## Calls of pathlib -/

/-- `Path.mkdir` with `parents`, the last name first; `errno` is what a file in the
way raises. -/
def makeDirsFrom (errno : Errno) : List Name → Fs Unit
  | [] => pure ()
  | name :: parent => do
      match ← lookup (name :: parent).reverse with
      | some .directory => pure ()
      | some _ => raise (.os errno)
      | none =>
        makeDirsFrom .notDirectory parent
        put (name :: parent).reverse .directory

def makeDirs (target : Path) : Fs Unit :=
  makeDirsFrom .entryExists target.reverse

def writeText (target : Path) (content : Text) : Fs Unit :=
  put target (.file (Utf8.encode content))

def rmtree (target : Path) : Fs Unit :=
  fun t => (.ok (), t.restrict fun q => !target.isPrefixOf q)

def isFile : Option Node → Bool
  | some (.file _) => true
  | _ => false

/-! ## Operations -/

def checkNotBuiltin (item : Skill F) : Fs Unit :=
  raiseIf (isBuiltinSkill item = true) (.app (.valueError "内置 skill 不允许直接修改文件"))

def updateSkillMetadataIfSkillsMd (p : Platform F) (t : SkillTable F) (slug : String)
    (content : Text) (skillDir target : Path) (updatedBy : Option String) (now : Nat) :
    Fs (SkillTable F) :=
  if target.getLastD [] = skillMd ∧ target.dropLast = skillDir then do
    let parsed ← lift (parseSkillMarkdown p content)
    raiseIf (parsed.slug ≠ slug) (.app (.valueError "SKILL.md frontmatter.slug 必须与 skill slug 一致"))
    pure (t.modify slug fun row =>
      { row with
        name := parsed.name, description := parsed.description, updatedBy, updatedAt := now })
  else pure t

/-- The node that an operation is about. -/
structure Located where
  slug : String
  skillDir : Path
  target : Path
  rel : Text
deriving DecidableEq

/-- What the three operations do first. -/
def locateNode (p : Platform F) (t : SkillTable F) (slug : String) (relativePath : Text)
    (operator : User) : Fs Located := do
  let item ← lift (getManageableSkillOrRaise p.conv t operator slug)
  checkNotBuiltin item.2
  let skillDir := resolveSkillDir p item.2
  let resolved ← resolveRelativePath skillDir relativePath
  pure { slug := item.1, skillDir, target := resolved.1, rel := resolved.2 }

/-- `create_skill_node`, with the table that it commits. -/
def createSkillNode (p : Platform F) (t : SkillTable F) (slug : String) (relativePath : Text)
    (isDir : Bool) (content : Option Text) (updatedBy : Option String) (operator : User)
    (now : Nat) : Fs (SkillTable F) := do
  let node ← locateNode p t slug relativePath operator
  let found ← lookup node.target
  raiseIf (found.isSome = true) (.app (.valueError "目标已存在"))
  if isDir then do
    makeDirs node.target
    pure t
  else do
    raiseIf (isTextPath p.lower node.target = false) (.app (.valueError "仅支持创建文本文件"))
    makeDirs node.target.dropLast
    writeText node.target (content.getD [])
    updateSkillMetadataIfSkillsMd p t node.slug (content.getD []) node.skillDir node.target
      updatedBy now

/-- `update_skill_file`, with the table that it commits. -/
def updateSkillFile (p : Platform F) (t : SkillTable F) (slug : String) (relativePath content : Text)
    (updatedBy : Option String) (operator : User) (now : Nat) : Fs (SkillTable F) := do
  let node ← locateNode p t slug relativePath operator
  let found ← lookup node.target
  raiseIf (isFile found = false) (.app (.valueError "文件不存在"))
  raiseIf (isTextPath p.lower node.target = false) (.app (.valueError "仅支持编辑文本文件"))
  let t' ← updateSkillMetadataIfSkillsMd p t node.slug content node.skillDir node.target
    updatedBy now
  writeText node.target content
  pure t'

/-- `delete_skill_node`: the protected file is recognised by the text of the path. -/
def deleteSkillNode (p : Platform F) (t : SkillTable F) (slug : String) (relativePath : Text)
    (operator : User) : Fs Unit := do
  let node ← locateNode p t slug relativePath operator
  let found ← lookup node.target
  raiseIf (found = none) (.app (.valueError "目标不存在"))
  raiseIf (node.rel = skillMd) (.app (.valueError "不允许删除根目录 SKILL.md"))
  if found = some .directory then rmtree node.target else drop node.target

/-! ## Runs -/

/-- The rows and the files. -/
structure SkillStore (F : Type) where
  table : SkillTable F
  tree : Tree

inductive SkillCall where
  | create (slug : String) (relativePath : Text) (isDir : Bool) (content : Option Text)
      (updatedBy : Option String) (operator : User) (now : Nat)
  | update (slug : String) (relativePath content : Text) (updatedBy : Option String)
      (operator : User) (now : Nat)
  | delete (slug : String) (relativePath : Text) (operator : User)
deriving DecidableEq

/-- The slug of the skill that a call is about. -/
def SkillCall.slug : SkillCall → String
  | .create slug .. => PyText.strip slug
  | .update slug .. => PyText.strip slug
  | .delete slug .. => PyText.strip slug

/-- What a call does, with the table that it commits. -/
def runCall (p : Platform F) (t : SkillTable F) : SkillCall → Fs (SkillTable F)
  | .create slug relativePath isDir content updatedBy operator now =>
    createSkillNode p t slug relativePath isDir content updatedBy operator now
  | .update slug relativePath content updatedBy operator now =>
    updateSkillFile p t slug relativePath content updatedBy operator now
  | .delete slug relativePath operator => do
      deleteSkillNode p t slug relativePath operator
      pure t

/-- A call that returns commits; one that raises leaves the rows as they were. -/
def committed (table : SkillTable F) : Except (Raised ConfigError) (SkillTable F) × Tree →
    SkillStore F
  | (.ok table', tree) => { table := table', tree }
  | (.error _, tree) => { table, tree }

def skillStep (p : Platform F) (σ : SkillStore F) (call : SkillCall) : SkillStore F :=
  committed σ.table (runCall p σ.table call σ.tree)

end Yuanlei.SkillNodes
