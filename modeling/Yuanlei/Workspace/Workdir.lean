import Yuanlei.Workspace.Frames
import Mathlib.Data.Set.Defs

/-!
# The Workdir capability

The operations of `Workdir`, each of which resolves its paths and hands them to `Workspace`.
The check `_require_within` and the opening `_resolve_path` read the resolved path differently:
the second one strips it again, after the trailing slashes are gone.  A path whose last component
ends in white space is therefore opened as another one, and `/ /` as the root itself.

Main results:

- `WorkdirOp.run`: the operations of a Workdir.
- `WorkdirOp.act`: what they mean, on given components.
-/

namespace Yuanlei

open PosixPath

open PyText (stripChars)

open FileTree

open FileTree.FsM (raise raiseIf lift withCleanup catchErrno)

open Workspace

namespace Workdir

variable (w : Workdir)

def scopePath (workspacePath : Text) : Except WorkspaceError Text :=
  let normalized := asPosix workspacePath
  let root := rstripSlashes w.rootPath
  if normalized = root then .ok ['/']
  else if root ++ ['/'] <+: normalized then .ok ('/' :: normalized.drop (root.length + 1))
  else .error (.value "path is outside the Workdir")

/-- The match of a search with the path in the scope of the Workdir. -/
def scopeMatch (found : Match) : Except WorkspaceError Match := do
  let path ← w.scopePath found.path
  pure { found with path := path }

/-! ## Methods -/

section Methods

variable (lower : Name → Name) (stack : Nat)

def listDirectory (path : Text) : Fs (List Entry) := do
  let resolved ← lift (w.resolvePath path)
  listAuthorizedDirectory lower resolved w.rootPath

def search (query : Text) (limits : SearchLimits) : Fs (List Match) := do
  let results ← searchAuthorizedTree lower w.rootPath query limits
  lift (results.mapM w.scopeMatch)

def readFile (path : Text) (maxBytes : Int) : Fs (List UInt8) := do
  let resolved ← lift (w.resolvePath path)
  readAuthorizedFile resolved maxBytes

def readFilePrefix (path : Text) (maxBytes : Int) : Fs (List UInt8 × Bool) := do
  let resolved ← lift (w.resolvePath path)
  readAuthorizedFilePrefix resolved maxBytes

def writeFile (path : Text) (content : List UInt8) : Fs Metadata := do
  let resolved ← lift (w.resolvePath path)
  writeAuthorizedFile resolved content

def replaceFile (path : Text) (content : List UInt8) (tempName : Name) : Fs Metadata := do
  let resolved ← lift (w.resolvePath path)
  replaceAuthorizedFile resolved content tempName

def createFile (path : Text) (content : List UInt8) (tempName : Name) : Fs Metadata := do
  let resolved ← lift (w.resolvePath path)
  createAuthorizedFile resolved content tempName

def moveFile (sourcePath targetPath : Text) : Fs Metadata := do
  let source ← lift (w.resolvePath sourcePath)
  let target ← lift (w.resolvePath targetPath)
  moveAuthorizedFile source target w.rootPath

def stat (path : Text) : Fs Metadata := do
  let resolved ← lift (w.resolvePath path)
  statAuthorizedPath resolved w.rootPath

def copyFileToPath (path : Text) (maxBytes : Int) : Fs (List UInt8) := do
  let resolved ← lift (w.resolvePath path)
  downloadAuthorizedFileToPath resolved maxBytes

def copyFileFromPath (path : Text) (source : Option (List UInt8)) (overwrite : Bool)
    (tempName : Name) : Fs Metadata := do
  let resolved ← lift (w.resolvePath path)
  uploadAuthorizedFileFromPath resolved source overwrite true tempName

def createDirectory (parentPath : Text) (name : Name) : Fs Metadata := do
  let resolved ← lift (w.resolvePath parentPath)
  createAuthorizedDirectory resolved name w.rootPath

def delete (path : Text) : Fs Unit := do
  let resolved ← lift (w.resolvePath path)
  deleteAuthorizedPath stack resolved w.rootPath false

/-- `Workdir.open_existing` on the normalised root. -/
def openExisting : Fs Unit := do
  let metadata ← w.stat ['/']
  raiseIf (metadata.isDir = false)
    (.app (.value "workdir_path does not reference an existing directory"))

end Methods

end Workdir

/-! ## Operations -/

/-- A call of an operation of a Workdir.  `tempName` is the name drawn for a temporary file. -/
inductive WorkdirOp where
  | listDirectory (path : Text)
  | search (query : Text) (limits : SearchLimits)
  | readFile (path : Text) (maxBytes : Int)
  | readFilePrefix (path : Text) (maxBytes : Int)
  | writeFile (path : Text) (content : List UInt8)
  | replaceFile (path : Text) (content : List UInt8) (tempName : Name)
  | createFile (path : Text) (content : List UInt8) (tempName : Name)
  | moveFile (sourcePath targetPath : Text)
  | stat (path : Text)
  | copyFileToPath (path : Text) (maxBytes : Int)
  | copyFileFromPath (path : Text) (source : Option (List UInt8)) (overwrite : Bool)
      (tempName : Name)
  | createDirectory (parentPath : Text) (name : Name)
  | delete (path : Text)

/-- What an operation returns. -/
inductive Outcome where
  | entries (entries : List Entry)
  | found (results : List Match)
  | content (bytes : List UInt8)
  | truncated (bytes : List UInt8) (cut : Bool)
  | metadata (metadata : Metadata)
  | done

namespace WorkdirOp

/-- The paths that an operation is given. -/
def paths : WorkdirOp → List Text
  | .search .. => []
  | .moveFile sourcePath targetPath => [sourcePath, targetPath]
  | .listDirectory path | .readFile path _ | .readFilePrefix path _ | .writeFile path _
  | .replaceFile path _ _ | .createFile path _ _ | .stat path | .copyFileToPath path _
  | .copyFileFromPath path _ _ _ | .createDirectory path _ | .delete path => [path]

/-- The names of temporary files that an operation draws. -/
def tempNames : WorkdirOp → List Name
  | .replaceFile _ _ tempName | .createFile _ _ tempName | .copyFileFromPath _ _ _ tempName =>
    [tempName]
  | _ => []

/-- The operations that make, replace, move or delete the entry of their path. -/
def changesEntry : WorkdirOp → Bool
  | .replaceFile .. | .createFile .. | .moveFile .. | .delete _ => true
  | _ => false

section Run

variable (lower : Name → Name) (stack : Nat) (w : Workdir)

/-- An operation with what it returns. -/
def run : WorkdirOp → Fs Outcome
  | .listDirectory path => do
      let entries ← w.listDirectory lower path
      pure (.entries entries)
  | .search query limits => do
      let results ← w.search lower query limits
      pure (.found results)
  | .readFile path maxBytes => do
      let bytes ← w.readFile path maxBytes
      pure (.content bytes)
  | .readFilePrefix path maxBytes => do
      let read ← w.readFilePrefix path maxBytes
      pure (.truncated read.1 read.2)
  | .writeFile path content => do
      let metadata ← w.writeFile path content
      pure (.metadata metadata)
  | .replaceFile path content tempName => do
      let metadata ← w.replaceFile path content tempName
      pure (.metadata metadata)
  | .createFile path content tempName => do
      let metadata ← w.createFile path content tempName
      pure (.metadata metadata)
  | .moveFile sourcePath targetPath => do
      let metadata ← w.moveFile sourcePath targetPath
      pure (.metadata metadata)
  | .stat path => do
      let metadata ← w.stat path
      pure (.metadata metadata)
  | .copyFileToPath path maxBytes => do
      let bytes ← w.copyFileToPath path maxBytes
      pure (.content bytes)
  | .copyFileFromPath path source overwrite tempName => do
      let metadata ← w.copyFileFromPath path source overwrite tempName
      pure (.metadata metadata)
  | .createDirectory parentPath name => do
      let metadata ← w.createDirectory parentPath name
      pure (.metadata metadata)
  | .delete path => do
      w.delete stack path
      pure .done

/-- Listing a directory of the search, with an explicit check that it is the root or below it. -/
def listBelow (directory : Text) (maxEntries : Int) : Fs (List Entry × Int) := do
  raiseIf (maxEntries < 0) (.app (.value "directory entry limit must be non-negative"))
  lift (requireWithin directory w.rootPath true)
  let parts ← lift (Workspace.resolvePath directory)
  raiseIf (¬ w.parts <+: parts) (.app (.value "path is outside the Workdir"))
  listLimitedAt lower parts maxEntries

/-- The meaning of an operation: its action on the entry whose components are those of the root
followed by those of its path. -/
def act : WorkdirOp → Fs Outcome
  | .listDirectory path => do
      let entries ← listAt lower (w.parts ++ Workdir.scopeParts path)
      pure (.entries entries)
  | .search query limits => do
      let results ← searchWith lower (listBelow lower w) w.rootPath query limits
      let results ← lift (results.mapM w.scopeMatch)
      pure (.found results)
  | .readFile path maxBytes => do
      let bytes ← readAt (w.parts ++ Workdir.scopeParts path) maxBytes
      pure (.content bytes)
  | .readFilePrefix path maxBytes => do
      let read ← readPrefixAt (w.parts ++ Workdir.scopeParts path) maxBytes
      pure (.truncated read.1 read.2)
  | .writeFile path content => do
      let metadata ← writeAt (w.parts ++ Workdir.scopeParts path) content
      pure (.metadata metadata)
  | .replaceFile path content tempName => do
      let metadata ← replaceAt (w.parts ++ Workdir.scopeParts path) content tempName
      pure (.metadata metadata)
  | .createFile path content tempName => do
      let metadata ← createAt (w.parts ++ Workdir.scopeParts path) content tempName
      pure (.metadata metadata)
  | .moveFile sourcePath targetPath => do
      let metadata ← moveAt (w.parts ++ Workdir.scopeParts sourcePath)
        (w.parts ++ Workdir.scopeParts targetPath)
      pure (.metadata metadata)
  | .stat path => do
      let metadata ← statAt (w.parts ++ Workdir.scopeParts path)
      pure (.metadata metadata)
  | .copyFileToPath path maxBytes => do
      let bytes ← readAt (w.parts ++ Workdir.scopeParts path) maxBytes
      pure (.content bytes)
  | .copyFileFromPath path source overwrite tempName => do
      let metadata ← uploadAt (w.parts ++ Workdir.scopeParts path) source overwrite true tempName
      pure (.metadata metadata)
  | .createDirectory parentPath name => do
      let metadata ← mkdirAt (w.parts ++ Workdir.scopeParts parentPath) name
      pure (.metadata metadata)
  | .delete path => do
      deleteAt stack (w.parts ++ Workdir.scopeParts path) false
      pure .done

end Run

end WorkdirOp

end Yuanlei
