import Yuanlei.Knowledge.Forest
import Yuanlei.Knowledge.FolderMigration
import Yuanlei.Lib.PyText

/-!
# Concurrent changes of the directory tree

The operations on the tree of one knowledge base are sequences of transactions.  Moves and
migrations hold the tree lock from their first read to their write; creations, renames,
deletions and new files do not.  A move walks up the ancestors of its target in one read after
the other, a recursive deletion lists the children before it deletes, and a migration writes at
its end what it collected from several queries.  The foreign key is checked at every write.

`add_file_record` takes the parent of the new file as it comes, while `create_folder` and
`move_file` check that it is a folder of the knowledge base.

Main results:

- `tree_stays_forest`: over every interleaving, the listing included.
- `file_below_file`: a new file below a file is missed by the listing.
-/

namespace Yuanlei.KnowledgeTree

open FolderMigration (scanRecords groupRecords siblings newFolder splitSlash)

variable {ι : Type} [LinearOrder ι]

/-! ## Operations in progress -/

/-- The pending rows of the transaction of a migration. -/
inductive Write (ι : Type) where
  | folder (id : ι) (row : KnowledgeFile ι)
  | move (id folder : ι) (filename : List Char)

/-- What a recursive deletion still has to do. -/
inductive DeleteTask (ι : Type) where
  | folder (id : ι)
  | row (id : ι)

inductive Op (ι : Type) where
  | idle
  | creating (folderName : List Char) (parentId : Option ι)
  | renamingFolder (folder : ι) (folderName : List Char)
  | walking (file newParent current : ι)
  | checkingParent (file newParent : ι)
  | reparenting (file : ι) (newParent : Option ι)
  | writingParent (file : ι) (newParent loaded : Option ι)
  | deleting (todo : List (DeleteTask ι))
  | adding (file : ι) (data : KnowledgeFile ι) (existing : Option (KnowledgeFile ι))
  | migrating (loaded : List (ι × KnowledgeFile ι)) (groups : List (FolderMigration.Group ι))
      (writes : List (Write ι))

/-- The rows, the identifiers drawn with `uuid4` so far, the holder of the tree lock and the
operation of every caller. -/
structure TreeState (ι : Type) [DecidableEq ι] where
  files : KnowledgeFiles ι
  drawn : List ι
  lock : Option Nat
  ops : Nat → Op ι

inductive Act (ι : Type) where
  | createFolder (caller : Nat) (folderName : List Char) (parentId : Option ι)
  | renameFolder (caller : Nat) (folder : ι) (folderName : List Char)
  | moveFile (caller : Nat) (file : ι) (newParent : Option ι)
  | deleteFolder (caller : Nat) (folder : ι)
  | addFileRecord (caller : Nat) (file : ι) (filename : List Char) (parentId : Option ι)
  | migrate (caller : Nat) (afterFileId : Option ι) (batchSize : Nat)
  | next (caller : Nat) (uuid : ι)
  | fail (caller : Nat)

namespace TreeState

def setOp (s : TreeState ι) (caller : Nat) (op : Op ι) : TreeState ι :=
  { s with ops := Function.update s.ops caller op }

/-- The operation of a caller ends; its lock goes with its session. -/
def finish (s : TreeState ι) (caller : Nat) : TreeState ι :=
  { s with
    lock := if s.lock = some caller then none else s.lock
    ops := Function.update s.ops caller .idle }

/-- The operation of a caller ends with rows that it committed. -/
def commit (s : TreeState ι) (caller : Nat) (files : KnowledgeFiles ι) : TreeState ι :=
  { s.finish caller with files := files }

/-- The end of an operation whose statement may have failed. -/
def commit? (s : TreeState ι) (caller : Nat) (files : Option (KnowledgeFiles ι)) : TreeState ι :=
  match files with
  | some files => s.commit caller files
  | none => s.finish caller

end TreeState

section Operations

variable (kbId : String)

def loadFileMeta (files : KnowledgeFiles ι) (id : ι) : Option (KnowledgeFile ι) :=
  (files.get id).filter fun row => row.kbId == kbId

def createFolder (s : TreeState ι) (caller : Nat) (folderName : List Char) (parentId : Option ι) :
    TreeState ι :=
  match parentId with
  | none => s.setOp caller (.creating folderName none)
  | some parent =>
    match loadFileMeta kbId s.files parent with
    | none => s
    | some row =>
      if row.isFolder = some true then s.setOp caller (.creating folderName (some parent))
      else s

def renameFolder (s : TreeState ι) (caller : Nat) (folder : ι) (folderName : List Char) :
    TreeState ι :=
  let normalizedName := PyText.stripChars folderName
  if normalizedName = [] ∨ '/' ∈ normalizedName ∨ '\\' ∈ normalizedName then s
  else
    match loadFileMeta kbId s.files folder with
    | none => s
    | some row =>
      if row.isFolder = some true then s.setOp caller (.renamingFolder folder normalizedName) else s

/-- `move_file` up to its first read, under the lock. -/
def moveFile (s : TreeState ι) (caller : Nat) (file : ι) (newParent : Option ι) : TreeState ι :=
  if s.lock = none then
    match loadFileMeta kbId s.files file with
    | none => s
    | some row =>
      let locked := { s with lock := some caller }
      match newParent with
      | none => locked.setOp caller (.reparenting file none)
      | some parent =>
        if row.isFolder = some true then
          if parent = file then s else locked.setOp caller (.walking file parent parent)
        else locked.setOp caller (.checkingParent file parent)
  else s

def addFileRecord (s : TreeState ι) (caller : Nat) (file : ι) (filename : List Char)
    (parentId : Option ι) : TreeState ι :=
  s.setOp caller (.adding file ⟨kbId, parentId, filename, some false⟩ (s.files.get file))

def migrate (s : TreeState ι) (caller : Nat) (afterFileId : Option ι) (batchSize : Nat) :
    TreeState ι :=
  if s.lock = none then
    let records := scanRecords s.files kbId afterFileId batchSize
    if records = [] then s
    else
      { s with lock := some caller }.setOp caller
        (.migrating records (groupRecords records).groups [])
  else s

/-- One load of the walk over the ancestors of the new parent. -/
def walkStep (s : TreeState ι) (caller : Nat) (file newParent current : ι) : TreeState ι :=
  match loadFileMeta kbId s.files current with
  | none => s.finish caller
  | some row =>
    if current = newParent ∧ row.isFolder ≠ some true then s.finish caller
    else if current = file then s.finish caller
    else
      match row.parentId with
      | none => s.setOp caller (.reparenting file (some newParent))
      | some parent => s.setOp caller (.walking file newParent parent)

def checkParentStep (s : TreeState ι) (caller : Nat) (file newParent : ι) : TreeState ι :=
  match loadFileMeta kbId s.files newParent with
  | none => s.finish caller
  | some row =>
    if row.isFolder = some true then s.setOp caller (.reparenting file (some newParent))
    else s.finish caller

/-- The query of `update_fields`. -/
def selectStep (s : TreeState ι) (caller : Nat) (file : ι) (newParent : Option ι) : TreeState ι :=
  match loadFileMeta kbId s.files file with
  | none => s.finish caller
  | some row => s.setOp caller (.writingParent file newParent row.parentId)

/-- Rewrite a row that must still exist. -/
def rewrite (files : KnowledgeFiles ι) (id : ι) (f : KnowledgeFile ι → KnowledgeFile ι) :
    Option (KnowledgeFiles ι) :=
  if (files.get id).isSome then files.update id f else none

/-- The flush of `update_fields`: an attribute that keeps its loaded value is not written. -/
def writeParentStep (s : TreeState ι) (caller : Nat) (file : ι) (newParent loaded : Option ι) :
    TreeState ι :=
  if newParent = loaded then s.finish caller
  else s.commit? caller (rewrite s.files file fun row => { row with parentId := newParent })

def renameStep (s : TreeState ι) (caller : Nat) (folder : ι) (folderName : List Char) :
    TreeState ι :=
  match loadFileMeta kbId s.files folder with
  | none => s.finish caller
  | some _ => s.commit? caller (s.files.update folder fun row => { row with filename := folderName })

/-- The children of a folder, each with what deleting it takes. -/
def childTasks (files : KnowledgeFiles ι) (folder : ι) : List (DeleteTask ι) :=
  (files.table.rows.filter fun e => e.2.kbId == kbId && e.2.parentId == some folder).map fun e =>
    if e.2.isFolder = some true then .folder e.1 else .row e.1

def deleteStep (s : TreeState ι) (caller : Nat) (todo : List (DeleteTask ι)) : TreeState ι :=
  match todo with
  | [] => s.finish caller
  | .folder id :: rest =>
    s.setOp caller (.deleting (childTasks kbId s.files id ++ .row id :: rest))
  | .row id :: rest => { s with files := s.files.delete id }.setOp caller (.deleting rest)

/-- The attributes of a loaded record that change are written. -/
def writeChanged (loaded data row : KnowledgeFile ι) : KnowledgeFile ι where
  kbId := if data.kbId = loaded.kbId then row.kbId else data.kbId
  parentId := if data.parentId = loaded.parentId then row.parentId else data.parentId
  filename := if data.filename = loaded.filename then row.filename else data.filename
  isFolder := if data.isFolder = loaded.isFolder then row.isFolder else data.isFolder

/-- The flush of `upsert`. -/
def upsertStep (s : TreeState ι) (caller : Nat) (file : ι) (data : KnowledgeFile ι)
    (existing : Option (KnowledgeFile ι)) : TreeState ι :=
  match existing with
  | none => s.commit? caller (s.files.insert file data)
  | some loaded => s.commit? caller (rewrite s.files file (writeChanged loaded data))

def applyWrite (files : KnowledgeFiles ι) : Write ι → Option (KnowledgeFiles ι)
  | .folder id row => files.insert id row
  | .move id folder filename =>
    rewrite files id fun row => { row with parentId := some folder, filename := filename }

/-- The moves of the files of a group, with the names that were loaded. -/
def groupMoves (loaded : List (ι × KnowledgeFile ι)) (folder : ι) (g : FolderMigration.Group ι) :
    List (Write ι) :=
  g.fileIds.map fun id =>
    .move id folder (((loaded.lookup id).map fun row => (splitSlash row.filename).2).getD [])

variable (isFolderId : ι → Bool)

/-- The insertion of `create_folder`, under a new identifier. -/
def createStep (s : TreeState ι) (caller : Nat) (folderName : List Char) (parentId : Option ι)
    (uuid : ι) : TreeState ι :=
  if uuid ∈ s.drawn ∨ isFolderId uuid = false then s
  else
    { s with drawn := uuid :: s.drawn }.commit? caller
      (s.files.insert uuid ⟨kbId, parentId, folderName, some true⟩)

/-- The next group of a migration, or its commit after the last one.  The transaction sees the
rows committed by then and its own. -/
def migrateStep (s : TreeState ι) (caller : Nat) (loaded : List (ι × KnowledgeFile ι))
    (groups : List (FolderMigration.Group ι)) (writes : List (Write ι)) (uuid : ι) : TreeState ι :=
  match writes.foldlM applyWrite s.files with
  | none => s.finish caller
  | some view =>
    match groups with
    | [] => s.commit caller view
    | g :: rest =>
      match siblings view kbId g.parentId g.segment with
      | [] =>
        if uuid ∈ s.drawn ∨ isFolderId uuid = false then s
        else
          { s with drawn := uuid :: s.drawn }.setOp caller (.migrating loaded rest
              (writes ++ Write.folder uuid (newFolder kbId g) :: groupMoves loaded uuid g))
      | [(folder, row)] =>
        if row.isFolder = some true then
          s.setOp caller (.migrating loaded rest (writes ++ groupMoves loaded folder g))
        else s.setOp caller (.migrating loaded rest writes)
      | _ => s.setOp caller (.migrating loaded rest writes)

def nextStep (s : TreeState ι) (caller : Nat) (uuid : ι) : TreeState ι :=
  match s.ops caller with
  | .idle => s
  | .creating folderName parentId => createStep kbId isFolderId s caller folderName parentId uuid
  | .renamingFolder folder folderName => renameStep kbId s caller folder folderName
  | .walking file newParent current => walkStep kbId s caller file newParent current
  | .checkingParent file newParent => checkParentStep kbId s caller file newParent
  | .reparenting file newParent => selectStep kbId s caller file newParent
  | .writingParent file newParent loaded => writeParentStep s caller file newParent loaded
  | .deleting todo => deleteStep kbId s caller todo
  | .adding file data existing => upsertStep s caller file data existing
  | .migrating loaded groups writes =>
    migrateStep kbId isFolderId s caller loaded groups writes uuid

def isIdle (s : TreeState ι) (caller : Nat) : Bool :=
  match s.ops caller with
  | .idle => true
  | _ => false

/-- One transaction, or one statement of a longer one, of one caller. -/
def step (s : TreeState ι) : Act ι → TreeState ι
  | .createFolder caller folderName parentId =>
    if isIdle s caller then createFolder kbId s caller folderName parentId else s
  | .renameFolder caller folder folderName =>
    if isIdle s caller then renameFolder kbId s caller folder folderName else s
  | .moveFile caller file newParent =>
    if isIdle s caller then moveFile kbId s caller file newParent else s
  | .deleteFolder caller folder =>
    if isIdle s caller then s.setOp caller (.deleting [.folder folder]) else s
  | .addFileRecord caller file filename parentId =>
    if isIdle s caller && !isFolderId file then
      addFileRecord kbId s caller file filename parentId
    else s
  | .migrate caller afterFileId batchSize =>
    if isIdle s caller then migrate kbId s caller afterFileId batchSize else s
  | .next caller uuid => nextStep kbId isFolderId s caller uuid
  | .fail caller => s.finish caller

end Operations

/-! ## What the rows keep -/

section Rows

variable {kbId : String} {isFolderId : ι → Bool}

/-- The rows form a forest, the identifiers tell folders from files, and every folder has an
identifier that was drawn. -/
structure TreeRows (kbId : String) (isFolderId : ι → Bool) (files : KnowledgeFiles ι)
    (drawn : List ι) : Prop where
  forest : Forest kbId files
  tags : ∀ id row, files.get id = some row → (row.isFolder = some true ↔ isFolderId id = true)
  drawn : ∀ id row, files.get id = some row → isFolderId id = true → id ∈ drawn

/-- A row with this identifier, if there is one, belongs to the knowledge base. -/
def InKb (kbId : String) (files : KnowledgeFiles ι) (id : ι) : Prop :=
  ∀ row, files.get id = some row → row.kbId = kbId

/-- A folder of the knowledge base that may have been deleted in the meantime. -/
structure KnownFolder (kbId : String) (isFolderId : ι → Bool) (files : KnowledgeFiles ι)
    (drawn : List ι) (id : ι) : Prop where
  tag : isFolderId id = true
  drawn : id ∈ drawn
  inKb : InKb kbId files id

variable {files : KnowledgeFiles ι} {row : KnowledgeFile ι}

variable {id : ι}

theorem loadFileMeta_eq_some :
    loadFileMeta kbId files id = some row ↔ files.get id = some row ∧ row.kbId = kbId := by
  simp [loadFileMeta, Option.filter_eq_some_iff]

theorem inKb_of_get (hget : files.get id = some row) (hkb : row.kbId = kbId) : InKb kbId files id := by
  intro row' hget'
  rw [hget] at hget'
  cases hget'
  exact hkb

namespace TreeRows

variable {files files' : KnowledgeFiles ι} {drawn : List ι}

section

variable (h : TreeRows kbId isFolderId files drawn)
include h

variable {id : ι} {row : KnowledgeFile ι}

theorem knownFolder (hget : files.get id = some row) (hkb : row.kbId = kbId)
    (hfolder : row.isFolder = some true) :
    KnownFolder kbId isFolderId files drawn id := by
  have htag := (h.tags id row hget).mp hfolder
  exact ⟨htag, h.drawn id row hget htag, inKb_of_get hget hkb⟩

/-- The parent of a row of the knowledge base is a folder that was drawn. -/
theorem knownFolder_parent {parent : ι} (hget : files.get id = some row) (hkb : row.kbId = kbId)
    (hparent : row.parentId = some parent) :
    KnownFolder kbId isFolderId files drawn parent := by
  obtain ⟨prow, hprow, hfolder, hpkb⟩ := h.forest.parents id row parent hget hkb hparent
  exact h.knownFolder hprow hpkb hfolder

theorem folder_of_known (hid : KnownFolder kbId isFolderId files drawn id)
    (hsome : (files.get id).isSome) :
    ∃ row, files.get id = some row ∧ row.isFolder = some true ∧ row.kbId = kbId := by
  obtain ⟨row, hrow⟩ := Option.isSome_iff_exists.mp hsome
  exact ⟨row, hrow, (h.tags id row hrow).mpr hid.tag, hid.inKb row hrow⟩

variable {x : ι}

theorem not_above_of_file {p : ι}
    {prow : KnowledgeFile ι} (hx : isFolderId x = false) (hp : files.get p = some prow)
    (hfolder : prow.isFolder = some true) (hkb : prow.kbId = kbId) : ¬ Above files x p := by
  intro habove
  have hptag := (h.tags p prow hp).mp hfolder
  rcases above_iff_eq_or_under.mp habove with heq | hunder
  · rw [← heq, hx] at hptag
    cases hptag
  · obtain ⟨xrow, hxrow, -⟩ := h.forest.get_of_above habove hp hkb
    have hxfolder := h.forest.isFolder_of_under hunder hp hkb hxrow
    have hxtag := (h.tags x xrow hxrow).mp hxfolder
    rw [hx] at hxtag
    cases hxtag

theorem insert {x : ι} {row : KnowledgeFile ι} (hinsert : files.insert x row = some files')
    (htag : row.isFolder = some true ↔ isFolderId x = true)
    (hdrawn : isFolderId x = true → x ∈ drawn)
    (hparent : ∀ p, row.parentId = some p →
      (files.get p).isSome → KnownFolder kbId isFolderId files drawn p)
    (hself : row.parentId ≠ some x) : TreeRows kbId isFolderId files' drawn := by
  obtain ⟨-, hget'⟩ := KnowledgeFiles.get_of_insert hinsert
  have hnew : files'.get x = some row := by rw [hget', if_pos rfl]
  constructor
  · apply forest_of_insert h.forest hinsert
    intro _ p hp
    have hsome := files'.parentExists x row p hnew hp
    have hne : p ≠ x := fun heq => hself (heq ▸ hp)
    rw [show files'.table.get p = files'.get p from rfl, hget', if_neg hne] at hsome
    exact h.folder_of_known (hparent p hp hsome) hsome
  · intro id r hget
    rw [hget'] at hget
    split at hget
    · next hid =>
      cases hget
      rw [hid]
      exact htag
    · exact h.tags id r hget
  · intro id r hget hid
    rw [hget'] at hget
    split at hget
    · next hx =>
      rw [hx] at hid ⊢
      exact hdrawn hid
    · exact h.drawn id r hget hid

/-- A row that is rewritten in place. -/
theorem rewrite {row' : KnowledgeFile ι}
    (hx : files.get x = some row) (hx' : files'.get x = some row')
    (hsame : ∀ k, k ≠ x → files'.get k = files.get k) (hkb : row'.kbId = row.kbId)
    (htag : row'.isFolder = some true ↔ row.isFolder = some true)
    (hparent : row.kbId = kbId → ∀ p, row'.parentId = some p →
      (∃ prow, files.get p = some prow ∧ prow.isFolder = some true ∧ prow.kbId = kbId) ∧
      ¬ Above files x p) : TreeRows kbId isFolderId files' drawn := by
  constructor
  · exact forest_of_reparent h.forest hx hx' hkb htag.mpr hsame hparent
  · intro id r hget
    by_cases hid : id = x
    · rw [hid, hx'] at hget
      cases hget
      rw [htag, hid]
      exact h.tags x row hx
    · rw [hsame id hid] at hget
      exact h.tags id r hget
  · intro id r hget hid
    by_cases hidx : id = x
    · rw [hidx] at hid ⊢
      exact h.drawn x row hx hid
    · rw [hsame id hidx] at hget
      exact h.drawn id r hget hid

theorem delete (x : ι) :
    TreeRows kbId isFolderId (files.delete x) drawn := by
  have hrow : ∀ id r, (files.delete x).get id = some r →
      ∃ row, files.get id = some row ∧ r.isFolder = row.isFolder := by
    intro id r hget
    rw [KnowledgeFiles.get_delete] at hget
    split at hget
    · cases hget
    · obtain ⟨row, hrow, rfl⟩ := Option.map_eq_some_iff.mp hget
      refine ⟨row, hrow, ?_⟩
      unfold KnowledgeFiles.clearParent
      split <;> rfl
  constructor
  · exact forest_of_delete h.forest x
  · intro id r hget
    obtain ⟨row, hget₀, hfolder⟩ := hrow id r hget
    rw [hfolder]
    exact h.tags id row hget₀
  · intro id r hget hid
    obtain ⟨row, hget₀, -⟩ := hrow id r hget
    exact h.drawn id row hget₀ hid

theorem mono {drawn' : List ι} (hsub : drawn ⊆ drawn') :
    TreeRows kbId isFolderId files drawn' where
  forest := h.forest
  tags := h.tags
  drawn := fun id row hget hid => hsub (h.drawn id row hget hid)

end

end TreeRows

/-! ## What the open operations rely on -/

/-- Rows come into the knowledge base but do not leave it. -/
def KeepsKb (kbId : String) (files files' : KnowledgeFiles ι) : Prop :=
  ∀ id, InKb kbId files id → InKb kbId files' id

/-- A folder gets no new parent. -/
def KeepsParents (isFolderId : ι → Bool) (drawn : List ι) (files files' : KnowledgeFiles ι) :
    Prop :=
  ∀ v ∈ drawn, isFolderId v = true → ∀ q, parentOf files' v = some q → parentOf files v = some q

variable {files' : KnowledgeFiles ι} {drawn drawn' : List ι}

theorem KnownFolder.mono (h : KnownFolder kbId isFolderId files drawn id)
    (hkb : KeepsKb kbId files files')
    (hsub : drawn ⊆ drawn') : KnownFolder kbId isFolderId files' drawn' id :=
  ⟨h.tag, hsub h.drawn, hkb id h.inKb⟩

/-- The rows visited by a walk, the last one first, and the row it goes on with: each was the
parent of the one before, and may have lost its child since. -/
def Trail (files : KnowledgeFiles ι) : List ι → Option ι → Prop
  | [], _ => True
  | v :: visited, next =>
    (∀ q, parentOf files v = some q → next = some q) ∧ Trail files visited (some v)

variable {visited : List ι}

theorem Trail.mono {next : Option ι}
    (h : Trail files visited next) (hparents : KeepsParents isFolderId drawn files files')
    (hknown : ∀ v ∈ visited, KnownFolder kbId isFolderId files drawn v) :
    Trail files' visited next := by
  induction visited generalizing next with
  | nil => exact h
  | cons v visited ih =>
    have hv := hknown v (by simp)
    refine ⟨fun q hq => h.1 q (hparents v hv.drawn hv.tag q hq), ?_⟩
    exact ih h.2 fun w hw => hknown w (by simp [hw])

variable {x : ι}

theorem Trail.above {next : Option ι} {v : ι}
    (h : Trail files visited next) (hv : v ∈ visited) (habove : Above files x v) :
    x ∈ visited ∨ ∃ c, next = some c ∧ Above files x c := by
  induction visited generalizing next with
  | nil => simp at hv
  | cons w visited ih =>
    have hhead : Above files x w → x ∈ w :: visited ∨ ∃ c, next = some c ∧ Above files x c := by
      intro hw
      cases hw with
      | refl => exact Or.inl (by simp)
      | up hq hrest => exact Or.inr ⟨_, h.1 _ hq, hrest⟩
    rcases List.mem_cons.mp hv with heq | hmem
    · exact hhead (heq ▸ habove)
    · rcases ih h.2 hmem with hx | ⟨c, hc, hxc⟩
      · exact Or.inl (by simp [hx])
      · cases hc
        exact hhead hxc

/-- A walk from the new parent that has not met the folder to be moved. -/
def Walk (kbId : String) (isFolderId : ι → Bool) (files : KnowledgeFiles ι) (drawn : List ι)
    (file newParent : ι) (current : Option ι) : Prop :=
  ∃ visited, (newParent ∈ visited ∨ current = some newParent) ∧ file ∉ visited ∧
    (∀ v ∈ visited, KnownFolder kbId isFolderId files drawn v) ∧
    (∀ c, current = some c → c = newParent ∨ KnownFolder kbId isFolderId files drawn c) ∧
    Trail files visited current

variable {file newParent : ι}

theorem Walk.mono {current : Option ι} (h : Walk kbId isFolderId files drawn file newParent current)
    (hkb : KeepsKb kbId files files') (hsub : drawn ⊆ drawn')
    (hparents : KeepsParents isFolderId drawn files files') :
    Walk kbId isFolderId files' drawn' file newParent current := by
  obtain ⟨visited, hstart, hfile, hknown, hcurrent, htrail⟩ := h
  refine ⟨visited, hstart, hfile, fun v hv => (hknown v hv).mono hkb hsub, ?_,
    htrail.mono hparents hknown⟩
  intro c hc
  rcases hcurrent c hc with heq | hfolder
  · exact Or.inl heq
  · exact Or.inr (hfolder.mono hkb hsub)

theorem Walk.not_above (h : Walk kbId isFolderId files drawn file newParent none) : ¬ Above files file newParent := by
  obtain ⟨visited, hstart, hfile, -, -, htrail⟩ := h
  intro habove
  have hmem : newParent ∈ visited := by
    rcases hstart with hmem | hcontra
    · exact hmem
    · cases hcontra
  rcases htrail.above hmem habove with hx | ⟨c, hc, -⟩
  · exact hfile hx
  · cases hc

theorem Walk.next {current : ι} (h : Walk kbId isFolderId files drawn file newParent (some current))
    (hrows : TreeRows kbId isFolderId files drawn) (hget : files.get current = some row)
    (hkb : row.kbId = kbId)
    (hfolder : current = newParent → row.isFolder = some true) (hne : current ≠ file) :
    Walk kbId isFolderId files drawn file newParent row.parentId ∧
      (row.parentId = none → KnownFolder kbId isFolderId files drawn newParent) := by
  obtain ⟨visited, hstart, hfile, hknown, hcurrent, htrail⟩ := h
  have hcur : KnownFolder kbId isFolderId files drawn current := by
    rcases hcurrent current rfl with heq | hk
    · exact hrows.knownFolder hget hkb (hfolder heq)
    · exact hk
  have hmem : newParent ∈ current :: visited := by
    rcases hstart with hmem | heq
    · exact List.mem_cons_of_mem _ hmem
    · cases heq
      exact List.mem_cons_self
  have hall : ∀ v ∈ current :: visited, KnownFolder kbId isFolderId files drawn v := by
    intro v hv
    rcases List.mem_cons.mp hv with heq | hv
    · exact heq ▸ hcur
    · exact hknown v hv
  refine ⟨⟨current :: visited, Or.inl hmem, ?_, hall, ?_, ?_, htrail⟩, fun _ => hall _ hmem⟩
  · simp only [List.mem_cons, not_or]
    exact ⟨hne.symm, hfile⟩
  · intro c hc
    exact Or.inr (hrows.knownFolder_parent hget hkb hc)
  · intro q hq
    rw [parentOf_of_get hget] at hq
    exact hq

def WriteOk (kbId : String) (isFolderId : ι → Bool) (files : KnowledgeFiles ι) (drawn : List ι) :
    Write ι → Prop
  | .folder id row => KnownFolder kbId isFolderId files drawn id ∧ row.kbId = kbId ∧
      row.isFolder = some true ∧ row.parentId ≠ some id ∧
      ∀ q, row.parentId = some q → KnownFolder kbId isFolderId files drawn q
  | .move id folder _ => isFolderId id = false ∧ InKb kbId files id ∧
      KnownFolder kbId isFolderId files drawn folder

def GroupOk (kbId : String) (isFolderId : ι → Bool) (files : KnowledgeFiles ι) (drawn : List ι)
    (g : FolderMigration.Group ι) : Prop :=
  (∀ q, g.parentId = some q → KnownFolder kbId isFolderId files drawn q) ∧
    ∀ id ∈ g.fileIds, isFolderId id = false ∧ InKb kbId files id

theorem WriteOk.mono {w : Write ι}
    (h : WriteOk kbId isFolderId files drawn w) (hkb : KeepsKb kbId files files')
    (hsub : drawn ⊆ drawn') : WriteOk kbId isFolderId files' drawn' w := by
  cases w with
  | folder id row =>
    obtain ⟨hknown, hrkb, hfolder, hself, hparent⟩ := h
    exact ⟨hknown.mono hkb hsub, hrkb, hfolder, hself, fun q hq => (hparent q hq).mono hkb hsub⟩
  | move id folder filename =>
    obtain ⟨htag, hin, hknown⟩ := h
    exact ⟨htag, hkb id hin, hknown.mono hkb hsub⟩

variable {g : FolderMigration.Group ι}

theorem GroupOk.mono (h : GroupOk kbId isFolderId files drawn g) (hkb : KeepsKb kbId files files')
    (hsub : drawn ⊆ drawn') : GroupOk kbId isFolderId files' drawn' g :=
  ⟨fun q hq => (h.1 q hq).mono hkb hsub, fun id hid => ⟨(h.2 id hid).1, hkb id (h.2 id hid).2⟩⟩

/-- What an operation in progress relies on. -/
def OpInv (kbId : String) (isFolderId : ι → Bool) (s : TreeState ι) (caller : Nat) : Op ι → Prop
  | .idle => True
  | .creating _ parentId =>
    ∀ p, parentId = some p → KnownFolder kbId isFolderId s.files s.drawn p
  | .renamingFolder _ _ => True
  | .walking file newParent current => s.lock = some caller ∧ InKb kbId s.files file ∧
      Walk kbId isFolderId s.files s.drawn file newParent (some current)
  | .checkingParent file _ => s.lock = some caller ∧ InKb kbId s.files file ∧
      isFolderId file = false
  | .reparenting file newParent => s.lock = some caller ∧ InKb kbId s.files file ∧
      ∀ p, newParent = some p → KnownFolder kbId isFolderId s.files s.drawn p ∧
        (isFolderId file = true → Walk kbId isFolderId s.files s.drawn file p none)
  | .writingParent file newParent _ => s.lock = some caller ∧ InKb kbId s.files file ∧
      ∀ p, newParent = some p → KnownFolder kbId isFolderId s.files s.drawn p ∧
        (isFolderId file = true → Walk kbId isFolderId s.files s.drawn file p none)
  | .deleting _ => True
  | .adding file data _ => isFolderId file = false ∧ data.kbId = kbId ∧ data.isFolder = some false
  | .migrating _ groups writes => s.lock = some caller ∧
      (∀ g ∈ groups, GroupOk kbId isFolderId s.files s.drawn g) ∧
      ∀ w ∈ writes, WriteOk kbId isFolderId s.files s.drawn w

/-- The forest, and what every open operation relies on. -/
structure TreeInv (kbId : String) (isFolderId : ι → Bool) (s : TreeState ι) : Prop where
  rows : TreeRows kbId isFolderId s.files s.drawn
  ops : ∀ caller, OpInv kbId isFolderId s caller (s.ops caller)

/-- What a step of one caller leaves to the others. -/
structure Frame (kbId : String) (isFolderId : ι → Bool) (caller : Nat) (s s' : TreeState ι) :
    Prop where
  ops : ∀ c, c ≠ caller → s'.ops c = s.ops c
  lock : ∀ c, c ≠ caller → s.lock = some c → s'.lock = some c
  kb : KeepsKb kbId s.files s'.files
  drawn : s.drawn ⊆ s'.drawn
  parents : s.lock = some caller ∨ KeepsParents isFolderId s.drawn s.files s'.files

variable {s : TreeState ι} {caller : Nat}

variable {s' : TreeState ι}

theorem opInv_of_frame {c : Nat} {op : Op ι}
    (hframe : Frame kbId isFolderId caller s s') (hne : c ≠ caller)
    (h : OpInv kbId isFolderId s c op) : OpInv kbId isFolderId s' c op := by
  have hparents : s.lock = some c → KeepsParents isFolderId s.drawn s.files s'.files := by
    intro hlock
    rcases hframe.parents with hcaller | hkeeps
    · rw [hlock] at hcaller
      exact absurd (Option.some.inj hcaller) hne
    · exact hkeeps
  cases op with
  | idle => trivial
  | creating folderName parentId =>
    exact fun p hp => (h p hp).mono hframe.kb hframe.drawn
  | renamingFolder folder folderName => trivial
  | walking file newParent current =>
    obtain ⟨hlock, hin, hwalk⟩ := h
    exact ⟨hframe.lock c hne hlock, hframe.kb file hin,
      hwalk.mono hframe.kb hframe.drawn (hparents hlock)⟩
  | checkingParent file newParent =>
    obtain ⟨hlock, hin, htag⟩ := h
    exact ⟨hframe.lock c hne hlock, hframe.kb file hin, htag⟩
  | reparenting file newParent =>
    obtain ⟨hlock, hin, hnew⟩ := h
    refine ⟨hframe.lock c hne hlock, hframe.kb file hin, fun p hp => ?_⟩
    obtain ⟨hknown, hwalk⟩ := hnew p hp
    exact ⟨hknown.mono hframe.kb hframe.drawn,
      fun htag => (hwalk htag).mono hframe.kb hframe.drawn (hparents hlock)⟩
  | writingParent file newParent loaded =>
    obtain ⟨hlock, hin, hnew⟩ := h
    refine ⟨hframe.lock c hne hlock, hframe.kb file hin, fun p hp => ?_⟩
    obtain ⟨hknown, hwalk⟩ := hnew p hp
    exact ⟨hknown.mono hframe.kb hframe.drawn,
      fun htag => (hwalk htag).mono hframe.kb hframe.drawn (hparents hlock)⟩
  | deleting todo => trivial
  | adding file data existing => exact h
  | migrating loaded groups writes =>
    obtain ⟨hlock, hgroups, hwrites⟩ := h
    exact ⟨hframe.lock c hne hlock, fun g hg => (hgroups g hg).mono hframe.kb hframe.drawn,
      fun w hw => (hwrites w hw).mono hframe.kb hframe.drawn⟩

theorem treeInv_of_frame (caller : Nat)
    (h : TreeInv kbId isFolderId s) (hframe : Frame kbId isFolderId caller s s')
    (hrows : TreeRows kbId isFolderId s'.files s'.drawn)
    (hop : OpInv kbId isFolderId s' caller (s'.ops caller)) : TreeInv kbId isFolderId s' := by
  refine ⟨hrows, fun c => ?_⟩
  by_cases hc : c = caller
  · rw [hc]
    exact hop
  · rw [hframe.ops c hc]
    exact opInv_of_frame hframe hc (h.ops c)

theorem keepsKb_refl (files : KnowledgeFiles ι) : KeepsKb kbId files files :=
  fun _ h => h

theorem keepsParents_refl (drawn : List ι) (files : KnowledgeFiles ι) :
    KeepsParents isFolderId drawn files files :=
  fun _ _ _ _ h => h

section

variable (h : TreeInv kbId isFolderId s)
include h

variable {op : Op ι}

/-- An operation goes on to its next part. -/
theorem treeInv_setOp (hop : OpInv kbId isFolderId s caller op) : TreeInv kbId isFolderId
    (s.setOp caller op) := by
  refine treeInv_of_frame caller h ?_ h.rows ?_
  · constructor
    · intro c hc
      simp [TreeState.setOp, Function.update_of_ne hc]
    · exact fun c _ hlock => hlock
    · exact keepsKb_refl s.files
    · exact fun _ hx => hx
    · exact Or.inr (keepsParents_refl s.drawn s.files)
  · simp only [TreeState.setOp, Function.update_self]
    cases op <;> exact hop

theorem treeInv_lock (hfree : s.lock = none)
    (hop : OpInv kbId isFolderId { s with lock := some caller } caller op) :
    TreeInv kbId isFolderId ({ s with lock := some caller }.setOp caller op) := by
  refine treeInv_of_frame caller h ?_ h.rows ?_
  · constructor
    · intro c hc
      simp [TreeState.setOp, Function.update_of_ne hc]
    · intro c _ hlock
      rw [hfree] at hlock
      cases hlock
    · exact keepsKb_refl s.files
    · exact fun _ hx => hx
    · exact Or.inr (keepsParents_refl s.drawn s.files)
  · simp only [TreeState.setOp, Function.update_self]
    cases op <;> exact hop

/-- An operation ends with the rows and identifiers that it adds. -/
theorem treeInv_commit
    (hrows : TreeRows kbId isFolderId files drawn) (hkb : KeepsKb kbId s.files files)
    (hsub : s.drawn ⊆ drawn)
    (hparents : s.lock = some caller ∨ KeepsParents isFolderId s.drawn s.files files) :
    TreeInv kbId isFolderId (TreeState.commit { s with drawn := drawn } caller files) := by
  refine treeInv_of_frame caller h ?_ hrows ?_
  · constructor
    · intro c hc
      simp [TreeState.commit, TreeState.finish, Function.update_of_ne hc]
    · intro c hc hlock
      simp [TreeState.commit, TreeState.finish, hlock, hc]
    · exact hkb
    · exact hsub
    · exact hparents
  · simp only [TreeState.commit, TreeState.finish, Function.update_self]
    trivial

theorem treeInv_finish :
    TreeInv kbId isFolderId (s.finish caller) :=
  treeInv_commit h h.rows (keepsKb_refl s.files) (fun _ hx => hx)
    (Or.inr (keepsParents_refl s.drawn s.files))

theorem treeInv_commit? {result : Option (KnowledgeFiles ι)}
    (hresult : ∀ files, result = some files → TreeRows kbId isFolderId files s.drawn ∧
      KeepsKb kbId s.files files ∧
      (s.lock = some caller ∨ KeepsParents isFolderId s.drawn s.files files)) :
    TreeInv kbId isFolderId (s.commit? caller result) := by
  cases result with
  | none => exact treeInv_finish h
  | some files =>
    obtain ⟨hrows, hkb, hparents⟩ := hresult files rfl
    exact treeInv_commit h hrows hkb (fun _ hx => hx) hparents

end

/-! ## What the statements do -/

theorem keepsKb_insert (hinsert : files.insert x row = some files') (hkb : row.kbId = kbId) :
    KeepsKb kbId files files' := by
  obtain ⟨-, hget'⟩ := KnowledgeFiles.get_of_insert hinsert
  intro id hin r hget
  rw [hget'] at hget
  split at hget
  · cases hget
    exact hkb
  · exact hin r hget

theorem keepsParents_insert (hinsert : files.insert x row = some files')
    (hx : isFolderId x = true → x ∉ drawn) : KeepsParents isFolderId drawn files files' := by
  obtain ⟨-, hget'⟩ := KnowledgeFiles.get_of_insert hinsert
  intro v hv htag q hq
  have hne : v ≠ x := by
    intro heq
    exact hx (heq ▸ htag) (heq ▸ hv)
  rwa [parentOf, hget', if_neg hne] at hq

/-- Rewriting a row that exists changes that row and no other. -/
theorem rewrite_spec {f : KnowledgeFile ι → KnowledgeFile ι} (h : rewrite files x f = some files') :
    ∃ row, files.get x = some row ∧ files'.get x = some (f row) ∧
      ∀ k, k ≠ x → files'.get k = files.get k := by
  unfold rewrite at h
  split at h
  · next hsome =>
    obtain ⟨row, hrow⟩ := Option.isSome_iff_exists.mp hsome
    have hget' := KnowledgeFiles.get_of_update h
    refine ⟨row, hrow, ?_, fun k hk => ?_⟩
    · rw [hget', if_pos rfl, hrow, Option.map_some]
    · rw [hget', if_neg hk]
  · cases h

variable {row' : KnowledgeFile ι}

theorem keepsKb_rewrite (hx : files.get x = some row) (hx' : files'.get x = some row')
    (hsame : ∀ k, k ≠ x → files'.get k = files.get k) (hkb : row'.kbId = row.kbId) :
    KeepsKb kbId files files' := by
  intro id hin r hget
  by_cases hid : id = x
  · rw [hid, hx'] at hget
    cases hget
    rw [hkb]
    exact hin row (hid ▸ hx)
  · rw [hsame id hid] at hget
    exact hin r hget

theorem keepsParents_rewrite (hx : files.get x = some row)
    (hx' : files'.get x = some row') (hsame : ∀ k, k ≠ x → files'.get k = files.get k)
    (hparent : isFolderId x = true → row'.parentId = row.parentId) :
    KeepsParents isFolderId drawn files files' := by
  intro v _ htag q hq
  by_cases hv : v = x
  · rw [hv, parentOf_of_get hx', hparent (hv ▸ htag)] at hq
    rw [hv, parentOf_of_get hx, hq]
  · rwa [parentOf, hsame v hv] at hq

theorem keepsKb_delete (files : KnowledgeFiles ι) (x : ι) : KeepsKb kbId files (files.delete x) := by
  intro id hin r hget
  rw [KnowledgeFiles.get_delete] at hget
  split at hget
  · cases hget
  · obtain ⟨row, hrow, rfl⟩ := Option.map_eq_some_iff.mp hget
    have hkb := hin row hrow
    unfold KnowledgeFiles.clearParent
    split <;> exact hkb

theorem keepsParents_delete (files : KnowledgeFiles ι) (x : ι) (drawn : List ι) :
    KeepsParents isFolderId drawn files (files.delete x) := by
  intro v _ _ q hq
  obtain ⟨r, hget, hparent⟩ := parentOf_eq_some.mp hq
  rw [KnowledgeFiles.get_delete] at hget
  split at hget
  · cases hget
  · obtain ⟨row, hrow, rfl⟩ := Option.map_eq_some_iff.mp hget
    unfold KnowledgeFiles.clearParent at hparent
    split at hparent
    · cases hparent
    · rw [parentOf_of_get hrow, hparent]

/-- A file of the knowledge base comes below a known folder. -/
theorem treeRows_move (h : TreeRows kbId isFolderId files drawn)
    (hx : files.get x = some row) (hx' : files'.get x = some row')
    (hsame : ∀ k, k ≠ x → files'.get k = files.get k) (hkb : row'.kbId = row.kbId)
    (htag : row'.isFolder = some true ↔ row.isFolder = some true)
    (hparent : ∀ p, row'.parentId = some p → (files.get p).isSome →
      KnownFolder kbId isFolderId files drawn p ∧
      (isFolderId x = true → ¬ Above files x p)) : TreeRows kbId isFolderId files' drawn := by
  refine h.rewrite hx hx' hsame hkb htag fun _ p hp => ?_
  have hsome : (files.get p).isSome := by
    have hexists : (files'.get p).isSome := files'.parentExists x row' p hx' hp
    by_cases hpx : p = x
    · rw [hpx, hx, Option.isSome_some]
    · rwa [hsame p hpx] at hexists
  obtain ⟨hknown, hnot⟩ := hparent p hp hsome
  obtain ⟨prow, hprow, hfolder, hpkb⟩ := h.folder_of_known hknown hsome
  refine ⟨⟨prow, hprow, hfolder, hpkb⟩, ?_⟩
  cases hxtag : isFolderId x with
  | true => exact hnot hxtag
  | false => exact h.not_above_of_file hxtag hprow hfolder hpkb

variable {writes : List (Write ι)}

/-- The pending rows of a migration: rows are added and moved, none is taken away. -/
theorem applyWrites_spec (h : TreeRows kbId isFolderId files drawn)
    (hwrites : ∀ w ∈ writes, WriteOk kbId isFolderId files drawn w)
    (happly : writes.foldlM applyWrite files = some files') :
    TreeRows kbId isFolderId files' drawn ∧ KeepsKb kbId files files' ∧
      ∀ id row, files.get id = some row → ∃ row', files'.get id = some row' ∧
        row'.kbId = row.kbId := by
  induction writes generalizing files with
  | nil =>
    have heq : files = files' := Option.some.inj happly
    subst heq
    exact ⟨h, keepsKb_refl files, fun id row hget => ⟨row, hget, rfl⟩⟩
  | cons w writes ih =>
    rw [List.foldlM_cons] at happly
    obtain ⟨files₁, hfirst, hrest⟩ := Option.bind_eq_some_iff.mp happly
    have hw := hwrites w (by simp)
    have hone : TreeRows kbId isFolderId files₁ drawn ∧ KeepsKb kbId files files₁ ∧
        ∀ id row, files.get id = some row → ∃ row', files₁.get id = some row' ∧
          row'.kbId = row.kbId := by
      cases w with
      | folder id row =>
        obtain ⟨hknown, hkb, hfolder, hself, hparent⟩ := hw
        refine ⟨?_, keepsKb_insert hfirst hkb, fun k krow hk => ⟨krow, ?_, rfl⟩⟩
        · refine h.insert hfirst ?_ (fun _ => hknown.drawn) (fun p hp _ => hparent p hp) hself
          simp [hfolder, hknown.tag]
        · obtain ⟨hfresh, hget'⟩ := KnowledgeFiles.get_of_insert hfirst
          have hne : k ≠ id := by
            intro heq
            simp [heq, hfresh] at hk
          rw [hget', if_neg hne, hk]
      | move id folder filename =>
        obtain ⟨htag, hin, hknown⟩ := hw
        obtain ⟨row, hrow, hrow', hsame⟩ := rewrite_spec hfirst
        refine ⟨?_, keepsKb_rewrite hrow hrow' hsame rfl, fun k krow hk => ?_⟩
        · refine treeRows_move h hrow hrow' hsame rfl Iff.rfl fun p hp _ => ?_
          cases hp
          exact ⟨hknown, fun hcontra => by simp [htag] at hcontra⟩
        · by_cases hkid : k = id
          · rw [hkid, hrow] at hk
            cases hk
            rw [hkid]
            exact ⟨_, hrow', rfl⟩
          · exact ⟨krow, (hsame k hkid).trans hk, rfl⟩
    obtain ⟨hrows₁, hkb₁, hkept₁⟩ := hone
    obtain ⟨hrows', hkb', hkept'⟩ := ih hrows₁
      (fun w' hw' => (hwrites w' (by simp [hw'])).mono hkb₁ (fun _ hx => hx)) hrest
    refine ⟨hrows', fun id hin => hkb' id (hkb₁ id hin), fun id row hget => ?_⟩
    obtain ⟨row₁, hget₁, heq₁⟩ := hkept₁ id row hget
    obtain ⟨row', hget', heq'⟩ := hkept' id row₁ hget₁
    exact ⟨row', hget', heq'.trans heq₁⟩

/-! ## Each operation -/

variable {s : TreeState ι} {caller : Nat}

section

variable (h : TreeInv kbId isFolderId s)
include h

theorem createFolder_treeInv (folderName : List Char)
    (parentId : Option ι) : TreeInv kbId isFolderId (createFolder kbId s caller folderName parentId) := by
  unfold createFolder
  split
  · exact treeInv_setOp h fun p hp => by cases hp
  · split
    · exact h
    · next row hload =>
      obtain ⟨hget, hkb⟩ := loadFileMeta_eq_some.mp hload
      split
      · next hfolder =>
        refine treeInv_setOp h fun p hp => ?_
        cases hp
        exact h.rows.knownFolder hget hkb hfolder
      · exact h

theorem renameFolder_treeInv (folder : ι) (folderName : List Char) :
    TreeInv kbId isFolderId (renameFolder kbId s caller folder folderName) := by
  unfold renameFolder
  simp only
  split
  · exact h
  · split
    · exact h
    · split
      · exact treeInv_setOp h trivial
      · exact h

theorem moveFile_treeInv (file : ι) (newParent : Option ι) :
    TreeInv kbId isFolderId (moveFile kbId s caller file newParent) := by
  unfold moveFile
  split
  · next hfree =>
    split
    · exact h
    · next row hload =>
      obtain ⟨hget, hkb⟩ := loadFileMeta_eq_some.mp hload
      have hin := inKb_of_get hget hkb
      simp only
      split
      · exact treeInv_lock h hfree ⟨rfl, hin, fun p hp => by cases hp⟩
      · next parent =>
        split
        · split
          · exact h
          · refine treeInv_lock h hfree ⟨rfl, hin, [], Or.inr rfl, by simp, by simp, ?_, trivial⟩
            intro c hc
            cases hc
            exact Or.inl rfl
        · next hfile =>
          refine treeInv_lock h hfree ⟨rfl, hin, ?_⟩
          have htag := h.rows.tags file row hget
          simpa [hfile] using htag
  · exact h

theorem migrate_treeInv (afterFileId : Option ι) (batchSize : Nat) :
    TreeInv kbId isFolderId (migrate kbId s caller afterFileId batchSize) := by
  unfold migrate
  split
  · next hfree =>
    simp only
    split
    · exact h
    · obtain ⟨-, hsorted⟩ :=
        FolderMigration.groupRecords_spec (scanRecords s.files kbId afterFileId batchSize)
      have hrecord : ∀ id row, (id, row) ∈ scanRecords s.files kbId afterFileId batchSize →
          s.files.get id = some row ∧ row.kbId = kbId ∧ row.isFolder ≠ some true := by
        intro id row hmem
        obtain ⟨hget, hv, -⟩ :=
          FolderMigration.mem_orderedRecords.mp (List.mem_of_mem_take hmem)
        obtain ⟨hkb, hfile, -⟩ := (FolderMigration.isVirtual_iff kbId row).mp hv
        exact ⟨hget, hkb, hfile⟩
      refine treeInv_lock h hfree ⟨rfl, fun g hg => ⟨fun q hq => ?_, fun id hid => ?_⟩, by simp⟩
      · obtain ⟨id, hid⟩ := List.exists_mem_of_ne_nil _
          (FolderMigration.fileIds_groupRecords_ne_nil _ g hg)
        obtain ⟨row, hmem, hparent, -⟩ := hsorted g hg id hid
        obtain ⟨hget, hkb, -⟩ := hrecord id row hmem
        exact h.rows.knownFolder_parent hget hkb (hparent.trans hq)
      · obtain ⟨row, hmem, -, -⟩ := hsorted g hg id hid
        obtain ⟨hget, hkb, hfile⟩ := hrecord id row hmem
        have htag := h.rows.tags id row hget
        exact ⟨by simpa [hfile] using htag, inKb_of_get hget hkb⟩
  · exact h

theorem createStep_treeInv {folderName : List Char}
    {parentId : Option ι} (hop : OpInv kbId isFolderId s caller (.creating folderName parentId))
    (uuid : ι) :
    TreeInv kbId isFolderId (createStep kbId isFolderId s caller folderName parentId uuid) := by
  unfold createStep
  split
  · exact h
  · next hnew =>
    simp only [not_or, Bool.not_eq_false] at hnew
    have hsub : s.drawn ⊆ uuid :: s.drawn := fun _ hx => List.mem_cons_of_mem _ hx
    cases hinsert : s.files.insert uuid ⟨kbId, parentId, folderName, some true⟩ with
    | none =>
      exact treeInv_commit h (h.rows.mono hsub) (keepsKb_refl s.files) hsub
        (Or.inr (keepsParents_refl s.drawn s.files))
    | some files =>
      refine treeInv_commit h ?_ (keepsKb_insert hinsert rfl) hsub
        (Or.inr (keepsParents_insert hinsert fun _ => hnew.1))
      refine (h.rows.mono hsub).insert hinsert (by simp [hnew.2]) (by simp) ?_ ?_
      · intro p hp _
        exact (hop p hp).mono (keepsKb_refl s.files) hsub
      · intro hself
        exact hnew.1 (hop uuid hself).drawn

theorem renameStep_treeInv (folder : ι) (folderName : List Char) :
    TreeInv kbId isFolderId (renameStep kbId s caller folder folderName) := by
  unfold renameStep
  split
  · exact treeInv_finish h
  · next row hload =>
    obtain ⟨hget, hkb⟩ := loadFileMeta_eq_some.mp hload
    refine treeInv_commit? h fun files hupdate => ?_
    have hget' := KnowledgeFiles.get_of_update hupdate
    have hsame : ∀ k, k ≠ folder → files.get k = s.files.get k := by
      intro k hk
      rw [hget', if_neg hk]
    have hnew : files.get folder = some { row with filename := folderName } := by
      rw [hget', if_pos rfl, hget, Option.map_some]
    refine ⟨?_, keepsKb_rewrite hget hnew hsame rfl,
      Or.inr (keepsParents_rewrite hget hnew hsame fun _ => rfl)⟩
    refine h.rows.rewrite hget hnew hsame rfl Iff.rfl fun _ p hp => ?_
    exact ⟨h.rows.forest.parents folder row p hget hkb hp, h.rows.forest.no_cycle hget hkb hp⟩

theorem walkStep_treeInv {current : ι}
    (hop : OpInv kbId isFolderId s caller (.walking file newParent current)) :
    TreeInv kbId isFolderId (walkStep kbId s caller file newParent current) := by
  obtain ⟨hlock, hin, hwalk⟩ := hop
  unfold walkStep
  split
  · exact treeInv_finish h
  · next row hload =>
    obtain ⟨hget, hkb⟩ := loadFileMeta_eq_some.mp hload
    split
    · exact treeInv_finish h
    · next hcheck =>
      split
      · exact treeInv_finish h
      · next hne =>
        have hfolder : current = newParent → row.isFolder = some true := by
          intro heq
          by_contra hnot
          exact hcheck ⟨heq, hnot⟩
        obtain ⟨hnext, htop⟩ := hwalk.next h.rows hget hkb hfolder hne
        split
        · next hparent =>
          rw [hparent] at hnext
          refine treeInv_setOp h ⟨hlock, hin, fun p hp => ?_⟩
          cases hp
          exact ⟨htop hparent, fun _ => hnext⟩
        · next parent hparent =>
          rw [hparent] at hnext
          exact treeInv_setOp h ⟨hlock, hin, hnext⟩

theorem checkParentStep_treeInv
    (hop : OpInv kbId isFolderId s caller (.checkingParent file newParent)) :
    TreeInv kbId isFolderId (checkParentStep kbId s caller file newParent) := by
  obtain ⟨hlock, hin, htag⟩ := hop
  unfold checkParentStep
  split
  · exact treeInv_finish h
  · next row hload =>
    obtain ⟨hget, hkb⟩ := loadFileMeta_eq_some.mp hload
    split
    · next hfolder =>
      refine treeInv_setOp h ⟨hlock, hin, fun p hp => ?_⟩
      cases hp
      exact ⟨h.rows.knownFolder hget hkb hfolder, fun hcontra => by simp [htag] at hcontra⟩
    · exact treeInv_finish h

variable {newParent : Option ι}

theorem selectStep_treeInv (hop : OpInv kbId isFolderId s caller (.reparenting file newParent)) :
    TreeInv kbId isFolderId (selectStep kbId s caller file newParent) := by
  unfold selectStep
  split
  · exact treeInv_finish h
  · exact treeInv_setOp h hop

theorem writeParentStep_treeInv {loaded : Option ι}
    (hop : OpInv kbId isFolderId s caller (.writingParent file newParent loaded)) :
    TreeInv kbId isFolderId (writeParentStep s caller file newParent loaded) := by
  obtain ⟨hlock, hin, hnew⟩ := hop
  unfold writeParentStep
  split
  · exact treeInv_finish h
  · refine treeInv_commit? h fun files hrewrite => ?_
    obtain ⟨row, hrow, hrow', hsame⟩ := rewrite_spec hrewrite
    refine ⟨?_, keepsKb_rewrite hrow hrow' hsame rfl, Or.inl hlock⟩
    refine treeRows_move h.rows hrow hrow' hsame rfl Iff.rfl fun p hp _ => ?_
    obtain ⟨hknown, hwalk⟩ := hnew p hp
    exact ⟨hknown, fun htag => (hwalk htag).not_above⟩

theorem deleteStep_treeInv (todo : List (DeleteTask ι)) :
    TreeInv kbId isFolderId (deleteStep kbId s caller todo) := by
  unfold deleteStep
  split
  · exact treeInv_finish h
  · exact treeInv_setOp h trivial
  · next id rest =>
    refine treeInv_of_frame caller h ?_ (h.rows.delete id) ?_
    · constructor
      · intro c hc
        simp [TreeState.setOp, Function.update_of_ne hc]
      · exact fun c _ hlock => hlock
      · exact keepsKb_delete s.files id
      · exact fun _ hx => hx
      · exact Or.inr (keepsParents_delete s.files id s.drawn)
    · simp only [TreeState.setOp, Function.update_self]
      trivial

end

/-- The parent of a new file is a folder of the knowledge base, if it exists, and its identifier
is not the one of a record elsewhere. -/
def NewFileBelowFolder (kbId : String) (files : KnowledgeFiles ι) (file : ι)
    (parentId : Option ι) : Prop :=
  (∀ p, parentId = some p → p ≠ file ∧ ∀ prow, files.get p = some prow →
    prow.isFolder = some true ∧ prow.kbId = kbId) ∧ InKb kbId files file

theorem upsertStep_treeInv (h : TreeInv kbId isFolderId s) {data : KnowledgeFile ι}
    {existing : Option (KnowledgeFile ι)}
    (hop : OpInv kbId isFolderId s caller (.adding file data existing))
    (hguard : NewFileBelowFolder kbId s.files file data.parentId) :
    TreeInv kbId isFolderId (upsertStep s caller file data existing) := by
  obtain ⟨htag, hkb, hisFolder⟩ := hop
  obtain ⟨hparent, hin⟩ := hguard
  have hknown : ∀ p, data.parentId = some p → (s.files.get p).isSome →
      KnownFolder kbId isFolderId s.files s.drawn p := by
    intro p hp hsome
    obtain ⟨prow, hprow⟩ := Option.isSome_iff_exists.mp hsome
    obtain ⟨hfolder, hpkb⟩ := (hparent p hp).2 prow hprow
    exact h.rows.knownFolder hprow hpkb hfolder
  unfold upsertStep
  split
  · refine treeInv_commit? h fun files hinsert => ?_
    refine ⟨?_, keepsKb_insert hinsert hkb,
      Or.inr (keepsParents_insert hinsert fun hcontra => by simp [htag] at hcontra)⟩
    refine h.rows.insert hinsert (by simp [hisFolder, htag])
      (fun hcontra => by simp [htag] at hcontra) hknown ?_
    intro hself
    exact (hparent file hself).1 rfl
  · next loaded =>
    refine treeInv_commit? h fun files hrewrite => ?_
    obtain ⟨row, hrow, hrow', hsame⟩ := rewrite_spec hrewrite
    have hrkb : row.kbId = kbId := hin row hrow
    have hsameKb : (writeChanged loaded data row).kbId = row.kbId := by
      simp only [writeChanged, hkb, hrkb]
      split <;> rfl
    have hnotFolder : row.isFolder ≠ some true := by
      intro hfolder
      have hcontra := (h.rows.tags file row hrow).mp hfolder
      simp [htag] at hcontra
    have hsameTag : (writeChanged loaded data row).isFolder = some true ↔
        row.isFolder = some true := by
      simp only [writeChanged, hisFolder]
      split
      · exact Iff.rfl
      · simp [hnotFolder]
    refine ⟨?_, keepsKb_rewrite hrow hrow' hsame hsameKb,
      Or.inr (keepsParents_rewrite hrow hrow' hsame fun hcontra => by simp [htag] at hcontra)⟩
    refine treeRows_move h.rows hrow hrow' hsame hsameKb hsameTag fun p hp hsome => ?_
    refine ⟨?_, fun hcontra => by simp [htag] at hcontra⟩
    simp only [writeChanged] at hp
    split at hp
    · exact h.rows.knownFolder_parent hrow hrkb hp
    · exact hknown p hp hsome

theorem groupMoves_ok {folder : ι} (hg : GroupOk kbId isFolderId files drawn g)
    (hfolder : KnownFolder kbId isFolderId files drawn folder)
    (loaded : List (ι × KnowledgeFile ι)) :
    ∀ w ∈ groupMoves loaded folder g, WriteOk kbId isFolderId files drawn w := by
  intro w hw
  obtain ⟨id, hid, rfl⟩ := List.mem_map.mp hw
  exact ⟨(hg.2 id hid).1, (hg.2 id hid).2, hfolder⟩

theorem migrateStep_treeInv (h : TreeInv kbId isFolderId s)
    {loaded : List (ι × KnowledgeFile ι)} {groups : List (FolderMigration.Group ι)}
    (hop : OpInv kbId isFolderId s caller (.migrating loaded groups writes)) (uuid : ι) :
    TreeInv kbId isFolderId (migrateStep kbId isFolderId s caller loaded groups writes uuid) := by
  obtain ⟨hlock, hgroups, hwrites⟩ := hop
  unfold migrateStep
  split
  · exact treeInv_finish h
  · next view happly =>
    obtain ⟨hrows, hkb, hkept⟩ := applyWrites_spec h.rows hwrites happly
    split
    · exact treeInv_commit h hrows hkb (fun _ hx => hx) (Or.inl hlock)
    · next g rest =>
      have hg := hgroups g (by simp)
      have hrest : ∀ g' ∈ rest, GroupOk kbId isFolderId s.files s.drawn g' :=
        fun g' hg' => hgroups g' (by simp [hg'])
      split
      · split
        · exact h
        · next hnew =>
          -- a folder that is neither drawn nor in the rows comes with the next commit
          simp only [not_or, Bool.not_eq_false] at hnew
          have hsub : s.drawn ⊆ uuid :: s.drawn := fun _ hx => List.mem_cons_of_mem _ hx
          have hmono : KeepsKb kbId s.files s.files := keepsKb_refl s.files
          have hknown : KnownFolder kbId isFolderId s.files (uuid :: s.drawn) uuid := by
            refine ⟨hnew.2, by simp, fun row hrow => ?_⟩
            exact absurd (h.rows.drawn uuid row hrow hnew.2) hnew.1
          refine treeInv_of_frame caller h ?_ (h.rows.mono hsub) ?_
          · constructor
            · intro c hc
              simp [TreeState.setOp, Function.update_of_ne hc]
            · exact fun c _ hlock => hlock
            · exact hmono
            · exact hsub
            · exact Or.inl hlock
          · simp only [TreeState.setOp, Function.update_self]
            refine ⟨hlock, fun g' hg' => (hrest g' hg').mono hmono hsub, fun w hw => ?_⟩
            rcases List.mem_append.mp hw with hold | hadded
            · exact (hwrites w hold).mono hmono hsub
            · rcases List.mem_cons.mp hadded with heq | hmove
              · subst heq
                refine ⟨hknown, rfl, rfl, fun hself => ?_, fun q hq => (hg.1 q hq).mono hmono hsub⟩
                exact hnew.1 (hg.1 uuid hself).drawn
              · exact groupMoves_ok (hg.mono hmono hsub) hknown loaded w hmove
      · next folder row hone =>
        split
        · next hfolder =>
          have hmem : (folder, row) ∈ siblings view kbId g.parentId g.segment := by
            rw [hone]
            exact List.mem_singleton_self _
          obtain ⟨hget, hrkb, -⟩ := FolderMigration.mem_siblings.mp hmem
          have hview := hrows.knownFolder hget hrkb hfolder
          have hknown : KnownFolder kbId isFolderId s.files s.drawn folder := by
            refine ⟨hview.tag, hview.drawn, fun row₀ hrow₀ => ?_⟩
            obtain ⟨row', hrow', heq⟩ := hkept folder row₀ hrow₀
            rw [← heq]
            exact hview.inKb row' hrow'
          refine treeInv_setOp h ⟨hlock, hrest, fun w hw => ?_⟩
          rcases List.mem_append.mp hw with hold | hmove
          · exact hwrites w hold
          · exact groupMoves_ok hg hknown loaded w hmove
        · exact treeInv_setOp h ⟨hlock, hrest, hwrites⟩
      · exact treeInv_setOp h ⟨hlock, hrest, hwrites⟩

/-! ## Every interleaving -/

/-- What the write of `add_file_record` does not check: its parent is a folder of the knowledge
base. -/
def ParentChecked (kbId : String) (s : TreeState ι) : Act ι → Prop
  | .next caller _ =>
    match s.ops caller with
    | .adding file data _ => NewFileBelowFolder kbId s.files file data.parentId
    | _ => True
  | _ => True

theorem nextStep_treeInv (h : TreeInv kbId isFolderId s) (uuid : ι)
    (hguard : ParentChecked kbId s (.next caller uuid)) :
    TreeInv kbId isFolderId (nextStep kbId isFolderId s caller uuid) := by
  have hop := h.ops caller
  unfold nextStep
  simp only [ParentChecked] at hguard
  cases hcase : s.ops caller with
  | idle => exact h
  | creating folderName parentId =>
    rw [hcase] at hop
    exact createStep_treeInv h hop uuid
  | renamingFolder folder folderName => exact renameStep_treeInv h folder folderName
  | walking file newParent current =>
    rw [hcase] at hop
    exact walkStep_treeInv h hop
  | checkingParent file newParent =>
    rw [hcase] at hop
    exact checkParentStep_treeInv h hop
  | reparenting file newParent =>
    rw [hcase] at hop
    exact selectStep_treeInv h hop
  | writingParent file newParent loaded =>
    rw [hcase] at hop
    exact writeParentStep_treeInv h hop
  | deleting todo => exact deleteStep_treeInv h todo
  | adding file data existing =>
    rw [hcase] at hop hguard
    exact upsertStep_treeInv h hop hguard
  | migrating loaded groups writes =>
    rw [hcase] at hop
    exact migrateStep_treeInv h hop uuid

theorem step_treeInv (h : TreeInv kbId isFolderId s) (act : Act ι)
    (hguard : ParentChecked kbId s act) : TreeInv kbId isFolderId (step kbId isFolderId s act) := by
  cases act with
  | createFolder caller folderName parentId =>
    simp only [step]
    split
    · exact createFolder_treeInv h folderName parentId
    · exact h
  | renameFolder caller folder folderName =>
    simp only [step]
    split
    · exact renameFolder_treeInv h folder folderName
    · exact h
  | moveFile caller file newParent =>
    simp only [step]
    split
    · exact moveFile_treeInv h file newParent
    · exact h
  | deleteFolder caller folder =>
    simp only [step]
    split
    · exact treeInv_setOp h trivial
    · exact h
  | addFileRecord caller file filename parentId =>
    simp only [step]
    split
    · next hstart =>
      simp only [Bool.and_eq_true, Bool.not_eq_true'] at hstart
      exact treeInv_setOp h ⟨hstart.2, rfl, rfl⟩
    · exact h
  | migrate caller afterFileId batchSize =>
    simp only [step]
    split
    · exact migrate_treeInv h afterFileId batchSize
    · exact h
  | next caller uuid => exact nextStep_treeInv h uuid hguard
  | fail caller => exact treeInv_finish h

end Rows

/-- A knowledge base on which no operation is open. -/
def TreeState.start (files : KnowledgeFiles ι) (drawn : List ι) : TreeState ι where
  files := files
  drawn := drawn
  lock := none
  ops := fun _ => .idle

variable {kbId : String} {files : KnowledgeFiles ι}

theorem treeInv_start {isFolderId : ι → Bool} {drawn : List ι}
    (h : TreeRows kbId isFolderId files drawn) :
    TreeInv kbId isFolderId (TreeState.start files drawn) :=
  ⟨h, fun _ => trivial⟩

/-- The parents of a knowledge base have no cycle and are folders of it, and the recursive listing
ends with every record once. -/
structure WellListed (kbId : String) (files : KnowledgeFiles ι) : Prop where
  parents : ∀ id row parent, files.get id = some row → row.kbId = kbId →
    row.parentId = some parent →
    ∃ prow, files.get parent = some prow ∧ prow.isFolder = some true ∧ prow.kbId = kbId
  acyclic : ∀ id row parent, files.get id = some row → row.kbId = kbId →
    row.parentId = some parent → ¬ Above files id parent
  listed : ∀ (order : ListingOrder ι) (filesOnly : Bool), ∃ fuel₀, ∀ fuel, fuel₀ ≤ fuel →
    ∃ entries, listKnowledgeChildren order files kbId true filesOnly fuel none = some entries ∧
      (entries.map Prod.fst).Nodup ∧
      ∀ id row, (id, row) ∈ entries ↔ files.get id = some row ∧ row.kbId = kbId ∧
        (filesOnly = true → row.isFile = true)

theorem Forest.wellListed (h : Forest kbId files) :
    WellListed kbId files where
  parents := h.parents
  acyclic := fun _ _ _ hget hkb hparent => h.no_cycle hget hkb hparent
  listed := fun order filesOnly => listKnowledgeChildren_complete h order filesOnly

/-- In every interleaving in which the parents of new files are folders of the knowledge base, its
records stay a forest and the recursive listing holds each of them once. -/
theorem tree_stays_forest {kbId : String} {isFolderId : ι → Bool} {files : KnowledgeFiles ι}
    {drawn : List ι} (hstart : TreeRows kbId isFolderId files drawn) (acts : List (Act ι))
    (hguard : Transition.Guarded (step kbId isFolderId) (ParentChecked kbId)
      (TreeState.start files drawn) acts) :
    WellListed kbId (Transition.exec (step kbId isFolderId) (TreeState.start files drawn)
      acts).files := by
  have hinv := Transition.exec_invariant_of_guarded (step kbId isFolderId)
    (fun s act hg (hs : TreeInv kbId isFolderId s) => step_treeInv hs act hg)
    (treeInv_start hstart) hguard
  exact hinv.rows.forest.wellListed

/-- A knowledge base without records. -/
def emptyFiles : KnowledgeFiles Nat where
  table := Table.empty
  parentExists := by
    intro _ _ _ hget
    cases hget

/-- Identifiers from a hundred on are those of folders. -/
def sampleTag (id : Nat) : Bool :=
  decide (100 ≤ id)

theorem treeRows_emptyFiles : TreeRows "kb" sampleTag emptyFiles [] where
  forest :=
    { parents := by
        intro _ _ _ hget
        cases hget
      rooted := by
        intro _ _ hget
        cases hget }
  tags := by
    intro _ _ hget
    cases hget
  drawn := by
    intro _ _ hget
    cases hget

/-- A folder, a file in it, and the move of the file to the top while the folder is deleted. -/
def folderRun : List (Act Nat) :=
  [.createFolder 0 ['d'] none, .next 0 100, .addFileRecord 1 1 ['f'] (some 100), .next 1 0,
    .moveFile 2 1 none, .deleteFolder 0 100, .next 0 0, .next 2 0, .next 0 0, .next 2 0, .next 0 0]

theorem tree_stays_forest_folderRun :
    WellListed "kb" (Transition.exec (step "kb" sampleTag) (TreeState.start emptyFiles [])
      folderRun).files := by
  apply tree_stays_forest treeRows_emptyFiles
  refine ⟨trivial, trivial, trivial, ⟨fun p hp => ?_, fun row hrow => ?_⟩, trivial, trivial, trivial,
    trivial, trivial, trivial, trivial, trivial⟩
  · cases hp
    refine ⟨by decide, fun prow hprow => ?_⟩
    cases hprow
    exact ⟨rfl, rfl⟩
  · cases hrow

/-- The parent of the second file is the first one. -/
def belowFileRun : List (Act Nat) :=
  [.addFileRecord 0 1 ['a'] none, .next 0 0, .addFileRecord 0 2 ['b'] (some 1), .next 0 0]

/-- A file whose parent is a file is in no listing. -/
theorem file_below_file : TreeRows "kb" sampleTag emptyFiles [] ∧
      ¬ WellListed "kb" (Transition.exec (step "kb" sampleTag) (TreeState.start emptyFiles [])
        belowFileRun).files := by
  refine ⟨treeRows_emptyFiles, fun hlisted => ?_⟩
  obtain ⟨prow, hprow, hfolder, -⟩ :=
    hlisted.parents 2 ⟨"kb", some 1, ['b'], some false⟩ 1 (by decide) rfl rfl
  have hrow : (Transition.exec (step "kb" sampleTag) (TreeState.start emptyFiles [])
      belowFileRun).files.get 1 = some ⟨"kb", none, ['a'], some false⟩ := by decide
  rw [hrow] at hprow
  cases hprow
  cases hfolder

end Yuanlei.KnowledgeTree
