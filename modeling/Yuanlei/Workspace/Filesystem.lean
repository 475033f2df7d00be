import Yuanlei.Lib.FileTree
import Yuanlei.Workspace.Paths
import Mathlib.Data.Char
import Mathlib.Data.List.Lex

/-!
# The file access boundary of a user's Workspace

The operations of `Workspace`.  Every operation checks and resolves its paths first and then
works on the components that it has found, so each of them comes in two parts: an action on
components, and the operation of the source on a path.

Text case, `str.lower`, is a parameter, and so is the part of the stack that the recursion of
`_remove_entry` can still use.  Times of modification are left out.

Main results:

- `listAt`, `statAt`, `readAt`, `writeAt`, `replaceAt`, `createAt`,
  `moveAt`, `uploadAt`, `mkdirAt` and `deleteAt`: the actions on components.
- `searchAuthorizedTree`: the bounded scan below a root.
-/

namespace Yuanlei

open PosixPath

open PyText (stripChars)

open FileTree

open FileTree.FsM (raise raiseIf lift withCleanup catchErrno)

namespace Workspace

abbrev Fs := FsM WorkspaceError

/-- `_metadata_from_stat`. -/
structure Metadata where
  isDir : Bool
  size : Nat
deriving DecidableEq

def metadataFromStat : Node → Metadata
  | .directory => ⟨true, 0⟩
  | .file content => ⟨false, content.length⟩
  | .symlink | .special => ⟨false, 0⟩

/-- An entry of a listing. -/
structure Entry where
  name : Name
  metadata : Metadata
deriving DecidableEq

/-! ## Opening -/

/-- The root of the Workspace has to be a directory. -/
def openRoot : Fs Unit := do
  match ← lookup [] with
  | none => raise (.os .noEntry)
  | some .directory => pure ()
  | some .symlink => raise (.os .loop)
  | some _ => raise (.os .notDirectory)

/-- `os.mkdir` where a directory may be missing. -/
def makeMissing (create : Bool) (dir : Path) (part : Name) : Fs Unit :=
  if create then catchErrno (mkdir dir part) .entryExists (pure ()) else pure ()

/-- The loop of `open_directory_fd`. -/
def openFrom (create : Bool) : Path → List Name → Fs Path
  | dir, [] => pure dir
  | dir, part :: rest => do
      makeMissing create dir part
      openDirectory dir part
      openFrom create (dir ++ [part]) rest

/-- The message for a link on the way. -/
def symlinkError : Raised WorkspaceError :=
  .app (.permission "symlink paths are not allowed")

/-- `Workspace._open_directory`. -/
def openParts (parts : List Name) (create : Bool) : Fs Path :=
  catchErrno (do openRoot; openFrom create [] parts) .loop (raise symlinkError)

/-- `parts[-1]`. -/
def lastName (parts : List Name) : Fs Name :=
  match parts.getLast? with
  | none => raise (.app (.value "tuple index out of range"))
  | some name => pure name

/-- What the operations on a file start with: its directory is opened, and the rest works on the
directory and the name. -/
def inParent {α : Type} (parts : List Name) (create : Bool) (f : Path → Name → Fs α) : Fs α := do
  raiseIf (parts = []) (.app .isADirectory)
  let dir ← openParts parts.dropLast create
  let name ← lastName parts
  f dir name

/-- `open_regular_file_fd`: the directory, the name and the content of a regular file. -/
def openRegularFile (parts : List Name) (writable : Bool) : Fs (Path × Name × List UInt8) :=
  inParent parts false fun dir name => do
    match ← catchErrno (openFile dir name writable) .loop (raise symlinkError) with
    | .directory => raise (.app .isADirectory)
    | .file content => pure (dir, name, content)
    | _ => raise (.app (.permission "only regular files are allowed"))

/-! ## Actions on components -/

/-- The regular files and directories among the names of a directory. -/
def visibleEntries (dir : Path) : List Name → Fs (List Entry)
  | [] => pure []
  | name :: names => do
      let node ← stat dir name
      let entries ← visibleEntries dir names
      match node with
      | .directory | .file _ => pure (⟨name, metadataFromStat node⟩ :: entries)
      | _ => pure entries

section Actions

variable (lower : Name → Name)

/-- `sorted` by `str.lower`. -/
def sortNames (names : List Name) : List Name :=
  names.mergeSort fun a b => lower a ≤ lower b

def sortEntries (entries : List Entry) : List Entry :=
  entries.mergeSort fun a b => lower a.name ≤ lower b.name

def listAt (parts : List Name) : Fs (List Entry) := do
  let dir ← openParts parts false
  let names ← listNames dir
  visibleEntries dir (sortNames lower names)

/-- At most `maxEntries` names are looked at, in the order of the directory. -/
def listLimitedAt (parts : List Name) (maxEntries : Int) : Fs (List Entry × Int) := do
  let dir ← openParts parts false
  let names ← listNames dir
  let examined := names.take maxEntries.toNat
  let entries ← visibleEntries dir examined
  pure (sortEntries lower entries, examined.length)

end Actions

/-- `os.stat` of the root of the Workspace or of a name in an opened directory. -/
def statParts (parts : List Name) : Fs Node :=
  match parts.getLast? with
  | none => do
      match ← lookup [] with
      | none => raise (.os .noEntry)
      | some node => pure node
  | some name => do
      let dir ← openParts parts.dropLast false
      stat dir name

def statAt (parts : List Name) : Fs Metadata := do
  let node ← statParts parts
  match node with
  | .symlink =>
    if parts = [] then
      raise (.app (.permission "only regular files and directories are allowed"))
    else raise symlinkError
  | .special => raise (.app (.permission "only regular files and directories are allowed"))
  | .directory | .file _ => pure (metadataFromStat node)

/-- The read of a whole file, limited in size. -/
def readAt (parts : List Name) (maxBytes : Int) : Fs (List UInt8) := do
  let (_, _, content) ← openRegularFile parts false
  raiseIf (maxBytes < content.length) (.app (.transferLimit "file exceeds transfer limit"))
  pure content

def readPrefixAt (parts : List Name) (maxBytes : Int) : Fs (List UInt8 × Bool) := do
  let (_, _, content) ← openRegularFile parts false
  pure (content.take maxBytes.toNat, maxBytes < content.length)

def writeAt (parts : List Name) (content : List UInt8) : Fs Metadata := do
  let (dir, name, _) ← openRegularFile parts true
  put (dir ++ [name]) (.file content)
  pure (metadataFromStat (.file content))

/-- `os.unlink` of a temporary file that may be gone. -/
def unlinkTemp (dir : Path) (tempName : Name) : Fs Unit :=
  catchErrno (unlink dir tempName) .noEntry (pure ())

/-- A new temporary file with its content. -/
def writeTemp (dir : Path) (tempName : Name) (content : List UInt8) : Fs Unit := do
  create dir tempName (.file [])
  put (dir ++ [tempName]) (.file content)

/-- The entry that a name has, if it has one. -/
def statOrNone (dir : Path) (name : Name) : Fs (Option Node) :=
  catchErrno (do let node ← stat dir name; pure (some node)) .noEntry (pure none)

def replaceAt (parts : List Name) (content : List UInt8) (tempName : Name) : Fs Metadata :=
  inParent parts false fun dir name =>
    withCleanup
      (do
        match ← statOrNone dir name with
        | some .symlink => raise symlinkError
        | some .directory | some .special =>
          raise (.app (.permission "only regular files can be replaced"))
        | none | some (.file _) => do
            writeTemp dir tempName content
            rename dir tempName name
            pure (metadataFromStat (.file content)))
      (unlinkTemp dir tempName)

def createAt (parts : List Name) (content : List UInt8) (tempName : Name) : Fs Metadata :=
  inParent parts false fun dir name =>
    withCleanup
      (do
        writeTemp dir tempName content
        link dir tempName name
        pure (metadataFromStat (.file content)))
      (unlinkTemp dir tempName)

def moveAt (source target : List Name) : Fs Metadata := do
  let sourceDir ← openParts source.dropLast false
  let targetDir ← openParts target.dropLast false
  let sourceName ← lastName source
  let notRegular : Raised WorkspaceError := .app (.permission "only regular files can be moved")
  match ← stat sourceDir sourceName with
  | .file _ => do
      let targetName ← lastName target
      renameat2 sourceDir sourceName targetDir targetName
      match ← stat targetDir targetName with
      | .file content => pure (metadataFromStat (.file content))
      | _ => do
          renameat2 targetDir targetName sourceDir sourceName
          raise notRegular
  | _ => raise notRegular

/-- A finished temporary file gets its name. -/
def publishTemp (dir : Path) (tempName name : Name) (overwrite : Bool) : Fs Unit :=
  if overwrite then rename dir tempName name
  else do
    link dir tempName name
    unlink dir tempName

/-- The source is a trusted file of the service: its content, or none if it is not a regular
file. -/
def uploadAt (parts : List Name) (source : Option (List UInt8)) (overwrite createParents : Bool)
    (tempName : Name) : Fs Metadata :=
  inParent parts createParents fun dir name =>
    withCleanup (match source with
      | none => raise (.app (.value "upload source is not a regular file"))
      | some content => do
          writeTemp dir tempName content
          publishTemp dir tempName name overwrite
          pure (metadataFromStat (.file content)))
      (unlinkTemp dir tempName)

def mkdirAt (parts : List Name) (name : Name) : Fs Metadata := do
  let dir ← openParts parts false
  mkdir dir name
  let node ← stat dir name
  pure (metadataFromStat node)

/-- `_remove_entry`; the recursion raises when the stack is used up. -/
def removeEntry (unlinkSymlinks : Bool) : Nat → Path → Name → Fs Unit
  | 0, _, _ => raise .recursion
  | depth + 1, dir, name => do
      match ← stat dir name with
      | .symlink =>
        if unlinkSymlinks then unlink dir name
        else raise (.app (.containsSymlink "delete target contains symlinks"))
      | .special =>
        raise (.app (.permission "only regular files and directories can be deleted"))
      | .file _ => unlink dir name
      | .directory => do
          openDirectory dir name
          let names ← listNames (dir ++ [name])
          names.forM (removeEntry unlinkSymlinks depth (dir ++ [name]))
          rmdir dir name

def deleteAt (stack : Nat) (parts : List Name) (unlinkSymlinks : Bool) : Fs Unit := do
  let dir ← openParts parts.dropLast false
  let name ← lastName parts
  removeEntry unlinkSymlinks stack dir name

/-! ## Operations on paths -/

section Operations

variable (lower : Name → Name) (stack : Nat)

def listAuthorizedDirectory (path root : Text) : Fs (List Entry) := do
  lift (requireWithin path root true)
  let parts ← lift (resolvePath path)
  listAt lower parts

def listAuthorizedDirectoryLimited (path root : Text) (maxEntries : Int) :
    Fs (List Entry × Int) := do
  raiseIf (maxEntries < 0) (.app (.value "directory entry limit must be non-negative"))
  lift (requireWithin path root true)
  let parts ← lift (resolvePath path)
  listLimitedAt lower parts maxEntries

/-- The keyword arguments of `search_authorized_tree`. -/
structure SearchLimits where
  includeDirectories : Bool := true
  excludeDirectories : List Name := []
  excludeHidden : Bool := false
  maxResults : Int := 500
  maxDirectories : Int := 600
  maxDepth : Int := 15
  maxEntriesPerDirectory : Int := 500
  maxScannedEntries : Int := 10000

/-- A match: its path and its entry. -/
structure Match where
  path : Text
  entry : Entry

/-- What the scan of one directory leaves: the directories to visit with their depths, the
matches, and whether there are enough of them. -/
structure ScanState where
  pending : List (Text × Int)
  results : List Match
  full : Bool

/-- The inner loop of `search_authorized_tree`. -/
def scanEntries (limits : SearchLimits) (query directory : Text) (depth : Int) :
    List Entry → ScanState → ScanState
  | [], s => s
  | item :: items, s =>
    let path := rstripSlashes directory ++ '/' :: item.name
    let isDir := item.metadata.isDir
    let excluded := isDir && (item.name ∈ limits.excludeDirectories ||
      (limits.excludeHidden && item.name.head? == some '.'))
    let pending :=
      if isDir && !excluded && depth < limits.maxDepth then s.pending ++ [(path, depth + 1)]
      else s.pending
    let matched := query = [] || query <:+: lower item.name || query <:+: lower path
    if matched && !excluded && (limits.includeDirectories || !isDir) then
      let results := s.results ++ [⟨path, item⟩]
      if limits.maxResults ≤ results.length then ⟨pending, results, true⟩
      else scanEntries limits query directory depth items ⟨pending, results, s.full⟩
    else scanEntries limits query directory depth items ⟨pending, s.results, s.full⟩

/-- The outer loop of `search_authorized_tree` over a way to list a directory; the number of
directories that may still be visited bounds it. -/
def searchLoop (list : Text → Int → Fs (List Entry × Int)) (limits : SearchLimits)
    (query : Text) : Nat → List (Text × Int) → Int → List Match → Fs (List Match)
  | 0, _, _, results => pure results
  | _ + 1, [], _, results => pure results
  | visits + 1, (directory, depth) :: pending, scanned, results =>
    if scanned < limits.maxScannedEntries then do
      let remaining := limits.maxScannedEntries - scanned
      let (entries, examined) ← list directory (min limits.maxEntriesPerDirectory remaining)
      let s := scanEntries lower limits query directory depth entries ⟨pending, results, false⟩
      if s.full then pure s.results
      else searchLoop list limits query visits s.pending (scanned + examined) s.results
    else pure results

/-- The search with a way to list a directory. -/
def searchWith (list : Text → Int → Fs (List Entry × Int)) (root query : Text)
    (limits : SearchLimits) : Fs (List Match) :=
  searchLoop lower list limits (lower (stripChars query)) limits.maxDirectories.toNat
    [(root, 0)] 0 []

def searchAuthorizedTree (root query : Text) (limits : SearchLimits) : Fs (List Match) :=
  searchWith lower (fun directory => listAuthorizedDirectoryLimited lower directory root) root
    query limits

/-- `download_authorized_file_to_path`: the bytes that are copied. -/
def downloadAuthorizedFileToPath (path : Text) (maxBytes : Int) : Fs (List UInt8) := do
  raiseIf (maxBytes < 0) (.app (.value "file download limit must be non-negative"))
  let parts ← lift (resolvePath path)
  readAt parts maxBytes

def readAuthorizedFile (path : Text) (maxBytes : Int) : Fs (List UInt8) := do
  raiseIf (maxBytes < 0) (.app (.value "file read limit must be non-negative"))
  let parts ← lift (resolvePath path)
  readAt parts maxBytes

def readAuthorizedFilePrefix (path : Text) (maxBytes : Int) : Fs (List UInt8 × Bool) := do
  raiseIf (maxBytes < 0) (.app (.value "file read limit must be non-negative"))
  let parts ← lift (resolvePath path)
  readPrefixAt parts maxBytes

def writeAuthorizedFile (path : Text) (content : List UInt8) : Fs Metadata := do
  let parts ← lift (resolvePath path)
  writeAt parts content

def replaceAuthorizedFile (path : Text) (content : List UInt8) (tempName : Name) : Fs Metadata := do
  let parts ← lift (resolvePath path)
  replaceAt parts content tempName

def createAuthorizedFile (path : Text) (content : List UInt8) (tempName : Name) : Fs Metadata := do
  let parts ← lift (resolvePath path)
  createAt parts content tempName

def moveAuthorizedFile (sourcePath targetPath root : Text) : Fs Metadata := do
  lift (requireWithin sourcePath root false)
  lift (requireWithin targetPath root false)
  let source ← lift (resolvePath sourcePath)
  let target ← lift (resolvePath targetPath)
  moveAt source target

def statAuthorizedPath (path root : Text) : Fs Metadata := do
  lift (requireWithin path root true)
  let parts ← lift (resolvePath path)
  statAt parts

def uploadAuthorizedFileFromPath (path : Text) (source : Option (List UInt8))
    (overwrite createParents : Bool) (tempName : Name) : Fs Metadata := do
  let parts ← lift (resolvePath path)
  uploadAt parts source overwrite createParents tempName

def createAuthorizedDirectory (parentPath : Text) (name : Name) (root : Text) : Fs Metadata := do
  raiseIf (name ∈ ["".toList, ".".toList, "..".toList] ∨ '/' ∈ name ∨ '\\' ∈ name)
    (.app (.value "directory name must be one path component"))
  lift (requireWithin parentPath root true)
  let parts ← lift (resolvePath parentPath)
  mkdirAt parts name

def deleteAuthorizedPath (path root : Text) (unlinkSymlinks : Bool) : Fs Unit := do
  lift (requireWithin path root false)
  let parts ← lift (resolvePath path)
  deleteAt stack parts unlinkSymlinks

end Operations

end Workspace

end Yuanlei
