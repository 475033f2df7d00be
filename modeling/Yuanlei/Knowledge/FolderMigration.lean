import Yuanlei.Knowledge.Files
import Yuanlei.Lib.Transition
import Mathlib.Data.List.TakeWhile
import Mathlib.Order.Defs.LinearOrder

/-!
# Migration of virtual folders

Files of older versions carry the path below their folder in their name.
`migrate_virtual_folder_batch` takes a batch of them in the order of their identifiers and moves
each one level down: the first segment of the name becomes a folder, found or created beside the
file.  `migrate_virtual_folder_data` repeats the batches until a pass over all files moves
nothing.

Main results:

- `migrateVirtualFolderBatch_spec`: what one batch does, counts what it moves and
  reports the rest.
- `step_passInv`: a pass without progress has reported every file behind its cursor.
- `migration_keeps_paths`: over any number of rounds.
-/

namespace Yuanlei.FolderMigration

variable {ι : Type} [LinearOrder ι]

/-! ## One batch -/

/-- A file of the knowledge base with a slash in its name. -/
def isVirtual (kbId : String) (row : KnowledgeFile ι) : Bool :=
  row.kbId == kbId && row.isFile && row.filename.contains '/'

/-- `filename.split("/", 1)` of a name with a slash -/
def splitSlash (filename : List Char) : List Char × List Char :=
  (filename.takeWhile (· != '/'), (filename.dropWhile (· != '/')).tail)

structure VirtualFolderData where
  hasVirtualFolders : Bool
  fileCount : Nat
  remainingSteps : Nat

def detectVirtualFolderData (files : KnowledgeFiles ι) (kbId : String) : VirtualFolderData :=
  let found := files.table.rows.filter fun e => isVirtual kbId e.2
  { hasVirtualFolders := decide (0 < found.length)
    fileCount := found.length
    remainingSteps :=
      (found.map fun e =>
        e.2.filename.length - (e.2.filename.filter (· != '/')).length).sum }

/-- The records behind a cursor, in the order of their identifiers. -/
def orderedRecords (files : KnowledgeFiles ι) (kbId : String) (afterFileId : Option ι) :
    List (ι × KnowledgeFile ι) :=
  (files.table.rows.filter fun e =>
      isVirtual kbId e.2 && afterFileId.all fun after => decide (after < e.1)).insertionSort
    fun a b => a.1 ≤ b.1

/-- The records of a batch. -/
def scanRecords (files : KnowledgeFiles ι) (kbId : String) (afterFileId : Option ι)
    (batchSize : Nat) : List (ι × KnowledgeFile ι) :=
  (orderedRecords files kbId afterFileId).take batchSize

/-- The files of one folder that share the first segment of their names. -/
structure Group (ι : Type) where
  parentId : Option ι
  segment : List Char
  fileIds : List ι

/-- `groups.setdefault((record.parent_id, segment), []).append(record)` -/
def addToGroup (groups : List (Group ι)) (parentId : Option ι) (segment : List Char) (id : ι) :
    List (Group ι) :=
  match groups with
  | [] => [⟨parentId, segment, [id]⟩]
  | g :: rest =>
    if g.parentId = parentId ∧ g.segment = segment then
      { g with fileIds := g.fileIds ++ [id] } :: rest
    else
      g :: addToGroup rest parentId segment id

/-- A name that is left alone: an empty or a dot segment, or nothing after the slash. -/
def isRejected (filename : List Char) : Bool :=
  let (segment, remainder) := splitSlash filename
  segment == [] || segment == ['.'] || segment == ['.', '.'] || remainder == []

structure Grouping (ι : Type) where
  groups : List (Group ι)
  conflictFileIds : List ι

def groupRecord (acc : Grouping ι) (record : ι × KnowledgeFile ι) : Grouping ι :=
  if isRejected record.2.filename then
    { acc with conflictFileIds := acc.conflictFileIds ++ [record.1] }
  else
    { acc with
      groups := addToGroup acc.groups record.2.parentId (splitSlash record.2.filename).1 record.1 }

def groupRecords (records : List (ι × KnowledgeFile ι)) : Grouping ι :=
  records.foldl groupRecord ⟨[], []⟩

structure BatchState (ι : Type) [DecidableEq ι] where
  files : KnowledgeFiles ι
  processed : Nat
  createdFolders : Nat
  conflictFileIds : List ι

def siblings (files : KnowledgeFiles ι) (kbId : String) (parentId : Option ι)
    (segment : List Char) : List (ι × KnowledgeFile ι) :=
  files.table.rows.filter fun e =>
    e.2.kbId == kbId && e.2.parentId == parentId && e.2.filename == segment

def moveRecord (folder : ι) (files : KnowledgeFiles ι) (id : ι) : Option (KnowledgeFiles ι) :=
  files.update id fun row =>
    { row with parentId := some folder, filename := (splitSlash row.filename).2 }

def moveGroup (folder : ι) (s : BatchState ι) (fileIds : List ι) : Option (BatchState ι) :=
  (fileIds.foldlM (moveRecord folder) s.files).map fun files =>
    { s with files := files, processed := s.processed + fileIds.length }

/-- The folder that a batch creates. -/
def newFolder (kbId : String) (g : Group ι) : KnowledgeFile ι where
  kbId := kbId
  parentId := g.parentId
  filename := g.segment
  isFolder := some true

/-- One group; `freshId` are the identifiers drawn for new folders.  `none` is an error of
the database, on which the transaction of the batch is rolled back. -/
def migrateGroup (kbId : String) (freshId : Nat → ι) (s : BatchState ι) (g : Group ι) :
    Option (BatchState ι) :=
  match siblings s.files kbId g.parentId g.segment with
  | [] =>
    (s.files.insert (freshId s.createdFolders) (newFolder kbId g)).bind fun files =>
      moveGroup (freshId s.createdFolders)
        { s with files := files, createdFolders := s.createdFolders + 1 } g.fileIds
  | [(folder, row)] =>
    if row.isFolder = some true then
      moveGroup folder s g.fileIds
    else
      some { s with conflictFileIds := s.conflictFileIds ++ g.fileIds }
  | _ => some { s with conflictFileIds := s.conflictFileIds ++ g.fileIds }

structure BatchResult (ι : Type) where
  scanned : Nat
  processed : Nat
  createdFolders : Nat
  conflictFileIds : List ι
  lastFileId : Option ι

def migrateVirtualFolderBatch (files : KnowledgeFiles ι) (kbId : String) (afterFileId : Option ι)
    (batchSize : Nat) (freshId : Nat → ι) : Option (KnowledgeFiles ι × BatchResult ι) :=
  let records := scanRecords files kbId afterFileId batchSize
  if records = [] then
    some (files, ⟨0, 0, 0, [], none⟩)
  else
    let grouping := groupRecords records
    (grouping.groups.foldlM (migrateGroup kbId freshId)
        ⟨files, 0, 0, grouping.conflictFileIds⟩).map fun s =>
      (s.files,
        { scanned := records.length
          processed := s.processed
          createdFolders := s.createdFolders
          conflictFileIds := s.conflictFileIds
          lastFileId := records.getLast?.map Prod.fst })

/-! ## The loop over the batches -/

inductive LoopStatus where
  | running
  | finished
  | failed
deriving DecidableEq

/-- The locals of `migrate_virtual_folder_data`, with the rows between two transactions. -/
structure Migration (ι : Type) [DecidableEq ι] where
  files : KnowledgeFiles ι
  processedSteps : Nat
  createdFolders : Nat
  conflictFileIds : List ι
  cursor : Option ι
  passProgress : Nat
  status : LoopStatus

/-- The loop at its start. -/
def Migration.start (files : KnowledgeFiles ι) : Migration ι where
  files := files
  processedSteps := 0
  createdFolders := 0
  conflictFileIds := []
  cursor := none
  passProgress := 0
  status := .running

structure Round (ι : Type) where
  batchSize : Nat
  freshId : Nat → ι

/-- The cursor, the counters and the reports after a batch that scanned something. -/
def Migration.advance (m : Migration ι) (files : KnowledgeFiles ι) (batch : BatchResult ι) :
    Migration ι :=
  { m with
    files := files
    cursor := batch.lastFileId
    processedSteps := m.processedSteps + batch.processed
    passProgress := m.passProgress + batch.processed
    createdFolders := m.createdFolders + batch.createdFolders
    conflictFileIds := m.conflictFileIds ++ batch.conflictFileIds }

/-- One iteration of the loop. -/
def step (kbId : String) (m : Migration ι) (round : Round ι) : Migration ι :=
  if m.status = .running then
    match migrateVirtualFolderBatch m.files kbId m.cursor round.batchSize round.freshId with
    | none => { m with status := .failed }
    | some (files, batch) =>
      if batch.scanned = 0 then
        if m.passProgress = 0 then { m with files := files, status := .finished }
        else { m with files := files, cursor := none, passProgress := 0 }
      else m.advance files batch
  else m

/-- `migrate_virtual_folder_data` after some rounds. -/
def migrateVirtualFolderData (kbId : String) (files : KnowledgeFiles ι)
    (rounds : List (Round ι)) : Migration ι :=
  Transition.exec (step kbId) (Migration.start files) rounds

/-! ## Names and slashes -/

variable {filename : List Char}

theorem splitSlash_eq (h : '/' ∈ filename) :
    filename = (splitSlash filename).1 ++ '/' :: (splitSlash filename).2 := by
  induction filename with
  | nil => simp at h
  | cons c cs ih =>
    by_cases hc : c = '/'
    · simp [splitSlash, hc]
    · have hmem : '/' ∈ cs := by
        rcases List.mem_cons.mp h with heq | hmem
        · exact absurd heq.symm hc
        · exact hmem
      have hrest := ih hmem
      simp only [splitSlash, List.takeWhile_cons, List.dropWhile_cons, bne_iff_ne, ne_eq, hc,
        not_false_eq_true, if_true, List.cons_append, List.cons.injEq, true_and]
      exact hrest

theorem slash_not_mem_segment (filename : List Char) : '/' ∉ (splitSlash filename).1 := by
  intro hmem
  have hne := List.mem_takeWhile_imp hmem
  simp at hne

theorem count_splitSlash (h : '/' ∈ filename) :
    filename.count '/' = (splitSlash filename).2.count '/' + 1 := by
  have hsegment := List.count_eq_zero.mpr (slash_not_mem_segment filename)
  conv_lhs => rw [splitSlash_eq h]
  rw [List.count_append, hsegment, List.count_cons_self]
  omega

omit [LinearOrder ι] in
theorem isVirtual_iff (kbId : String) (row : KnowledgeFile ι) :
    isVirtual kbId row ↔ row.kbId = kbId ∧ row.isFolder ≠ some true ∧ '/' ∈ row.filename := by
  simp [isVirtual, KnowledgeFile.isFile, and_assoc]

/-- The slashes a row has left to lose. -/
def slashes (kbId : String) (row : KnowledgeFile ι) : Nat :=
  if row.kbId = kbId ∧ row.isFolder ≠ some true then row.filename.count '/' else 0

theorem length_sub_filter (filename : List Char) :
    filename.length - (filename.filter (· != '/')).length = filename.count '/' := by
  induction filename with
  | nil => rfl
  | cons c cs ih =>
    have hle := List.length_filter_le (· != '/') cs
    by_cases hc : c = '/'
    · simp only [hc, List.length_cons, List.count_cons_self, bne_self_eq_false,
        Bool.false_eq_true, not_false_eq_true, List.filter_cons_of_neg]
      omega
    · simp only [List.length_cons, bne_iff_ne, ne_eq, hc, not_false_eq_true,
        List.filter_cons_of_pos, List.count_cons_of_ne]
      omega

theorem remainingSteps_eq (files : KnowledgeFiles ι) (kbId : String) :
    (detectVirtualFolderData files kbId).remainingSteps = files.table.total (slashes kbId) := by
  simp only [detectVirtualFolderData, Table.total, length_sub_filter]
  induction files.table.rows with
  | nil => rfl
  | cons e es ih =>
    rw [List.map_cons, List.sum_cons, ← ih]
    by_cases hv : isVirtual kbId e.2
    · obtain ⟨hkb, hfile, -⟩ := (isVirtual_iff kbId e.2).mp hv
      simp [hv, slashes, hkb, hfile]
    · have hzero : slashes kbId e.2 = 0 := by
        unfold slashes
        split
        · next hcond =>
          apply List.count_eq_zero.mpr
          intro hmem
          exact hv ((isVirtual_iff kbId e.2).mpr ⟨hcond.1, hcond.2, hmem⟩)
        · rfl
      simp [hv, hzero]

/-! ## What the records keep -/

/-- The records after some part of a migration, compared with those before. -/
structure Migrated (kbId : String) (files files' : KnowledgeFiles ι) : Prop where
  kept : ∀ id row, files.get id = some row → ∃ row', files'.get id = some row' ∧
    row'.kbId = row.kbId ∧ row'.isFolder = row.isFolder ∧
    (row.isFolder = some true → row' = row)
  paths : ∀ id, (files.get id).isSome → ∀ path,
    LogicalPath files' id path ↔ LogicalPath files id path
  created : ∀ id row', files.get id = none → files'.get id = some row' →
    row'.kbId = kbId ∧ row'.isFolder = some true
  noTwin : ∀ id row' twin trow, files.get id = none → files'.get id = some row' →
    files'.get twin = some trow → trow.isFolder = some true → trow.kbId = row'.kbId →
    trow.parentId = row'.parentId → trow.filename = row'.filename → twin = id
  isVirtual_of : ∀ id row', files'.get id = some row' → isVirtual kbId row' →
    ∃ row, files.get id = some row ∧ isVirtual kbId row

namespace Migrated

variable {kbId : String} {files files₁ files₂ : KnowledgeFiles ι}

theorem refl (kbId : String) (files : KnowledgeFiles ι) : Migrated kbId files files where
  kept := fun _ row hget => ⟨row, hget, rfl, rfl, fun _ => rfl⟩
  paths := fun _ _ _ => Iff.rfl
  created := fun id row' hnone hsome => by simp [hnone] at hsome
  noTwin := fun id row' _ _ hnone hsome => by simp [hnone] at hsome
  isVirtual_of := fun _ row' hget hv => ⟨row', hget, hv⟩

theorem isSome_of (h : Migrated kbId files files₁) {id : ι} (hsome : (files.get id).isSome) :
    (files₁.get id).isSome := by
  obtain ⟨row, hrow⟩ := Option.isSome_iff_exists.mp hsome
  obtain ⟨row', hrow', -⟩ := h.kept id row hrow
  simp [hrow']

theorem trans (h₁ : Migrated kbId files files₁) (h₂ : Migrated kbId files₁ files₂) :
    Migrated kbId files files₂ where
  kept := by
    intro id row hget
    obtain ⟨row₁, hget₁, hkb₁, hfolder₁, hsame₁⟩ := h₁.kept id row hget
    obtain ⟨row₂, hget₂, hkb₂, hfolder₂, hsame₂⟩ := h₂.kept id row₁ hget₁
    refine ⟨row₂, hget₂, hkb₂.trans hkb₁, hfolder₂.trans hfolder₁, fun hfolder => ?_⟩
    rw [hsame₂ (hfolder₁.trans hfolder), hsame₁ hfolder]
  paths := by
    intro id hsome path
    rw [h₂.paths id (h₁.isSome_of hsome) path, h₁.paths id hsome path]
  created := by
    intro id row₂ hnone hget₂
    cases hget₁ : files₁.get id with
    | none => exact h₂.created id row₂ hget₁ hget₂
    | some row₁ =>
      obtain ⟨hkb, hfolder⟩ := h₁.created id row₁ hnone hget₁
      obtain ⟨row₂', hget₂', hkb', hfolder', -⟩ := h₂.kept id row₁ hget₁
      rw [hget₂] at hget₂'
      cases hget₂'
      exact ⟨hkb'.trans hkb, hfolder'.trans hfolder⟩
  noTwin := by
    intro id row₂ twin trow hnone hget₂ htwin htfolder htkb htparent htname
    cases hget₁ : files₁.get id with
    | none => exact h₂.noTwin id row₂ twin trow hget₁ hget₂ htwin htfolder htkb htparent htname
    | some row₁ =>
      obtain ⟨-, hfolder₁⟩ := h₁.created id row₁ hnone hget₁
      obtain ⟨row₂', hget₂', -, -, hsame⟩ := h₂.kept id row₁ hget₁
      rw [hget₂] at hget₂'
      cases hget₂'
      have hrow : row₂ = row₁ := hsame hfolder₁
      subst hrow
      cases htwin₁ : files₁.get twin with
      | none =>
        exact (h₂.noTwin twin trow id row₂ htwin₁ htwin hget₂ hfolder₁ htkb.symm
          htparent.symm htname.symm).symm
      | some trow₁ =>
        obtain ⟨trow₂, htget₂, -, htfolder₂, htsame⟩ := h₂.kept twin trow₁ htwin₁
        rw [htwin] at htget₂
        cases htget₂
        have htrow : trow = trow₁ := htsame (htfolder₂.symm.trans htfolder)
        subst htrow
        exact h₁.noTwin id row₂ twin trow hnone hget₁ htwin₁ htfolder htkb htparent htname
  isVirtual_of := by
    intro id row₂ hget₂ hv₂
    obtain ⟨row₁, hget₁, hv₁⟩ := h₂.isVirtual_of id row₂ hget₂ hv₂
    exact h₁.isVirtual_of id row₁ hget₁ hv₁

end Migrated

variable {files : KnowledgeFiles ι} {kbId : String} {parentId : Option ι} {segment : List Char}
  {id : ι} {row : KnowledgeFile ι}

theorem mem_siblings :
    (id, row) ∈ siblings files kbId parentId segment ↔
      files.get id = some row ∧ row.kbId = kbId ∧ row.parentId = parentId ∧
        row.filename = segment := by
  simp only [siblings, List.mem_filter, Table.mem_rows_iff, Bool.and_eq_true, beq_iff_eq,
    KnowledgeFiles.get, and_assoc]

variable {files' : KnowledgeFiles ι} {g : Group ι}

/-- Creating a folder where nothing has its name. -/
theorem migrated_of_insert (hnone : siblings files kbId g.parentId g.segment = [])
    (h : files.insert id (newFolder kbId g) = some files') : Migrated kbId files files' := by
  obtain ⟨hfresh, hget'⟩ := KnowledgeFiles.get_of_insert h
  have hother : ∀ k row, files.get k = some row → files'.get k = some row := by
    intro k row hget
    have hne : k ≠ id := by
      intro heq
      rw [heq, hfresh] at hget
      cases hget
    rw [hget', if_neg hne, hget]
  constructor
  · intro k row hget
    exact ⟨row, hother k row hget, rfl, rfl, fun _ => rfl⟩
  · intro k hsome path
    exact logicalPath_of_insert h hsome path
  · intro k row' hknone hget
    rw [hget'] at hget
    split at hget
    · cases hget
      exact ⟨rfl, rfl⟩
    · rw [hknone] at hget
      cases hget
  · intro k row' twin trow hknone hget htwin htfolder htkb htparent htname
    rw [hget'] at hget
    split at hget
    · next hk =>
      cases hget
      rw [hget'] at htwin
      split at htwin
      · next ht => exact ht.trans hk.symm
      · have hmem : (twin, trow) ∈ siblings files kbId g.parentId g.segment :=
          mem_siblings.mpr ⟨htwin, htkb, htparent, htname⟩
        rw [hnone] at hmem
        simp at hmem
    · rw [hknone] at hget
      cases hget
  · intro k row' hget hv
    rw [hget'] at hget
    split at hget
    · cases hget
      have hfile := ((isVirtual_iff kbId _).mp hv).2.1
      simp [newFolder] at hfile
    · exact ⟨row', hget, hv⟩

/-! ## Moving the files of a group -/

/-- A record that still stands as it was scanned. -/
def Pending (kbId : String) (files : KnowledgeFiles ι) (parentId : Option ι)
    (segment : List Char) (id : ι) : Prop :=
  ∃ row, files.get id = some row ∧ isVirtual kbId row ∧ row.parentId = parentId ∧
    (splitSlash row.filename).1 = segment

/-- A folder that the files of a group can move into. -/
def Receives (files : KnowledgeFiles ι) (parentId : Option ι) (segment : List Char)
    (folder : ι) : Prop :=
  ∃ frow, files.get folder = some frow ∧ frow.isFolder = some true ∧
    frow.parentId = parentId ∧ frow.filename = segment

/-- What moving some files does: it counts them and touches no other row. -/
structure Moved (kbId : String) (files files' : KnowledgeFiles ι) (ids : List ι) : Prop where
  migrated : Migrated kbId files files'
  total : files'.table.total (slashes kbId) + ids.length = files.table.total (slashes kbId)
  other : ∀ k, k ∉ ids → files'.get k = files.get k

variable {folder : ι}

theorem moveRecord_spec (hpending : Pending kbId files parentId segment id)
    (hfolder : Receives files parentId segment folder)
    (h : moveRecord folder files id = some files') : Moved kbId files files' [id] := by
  obtain ⟨row, hrow, hv, hparent, hsegment⟩ := hpending
  obtain ⟨frow, hfrow, hisFolder, hfparent, hfname⟩ := hfolder
  obtain ⟨hkb, hfile, hslash⟩ := (isVirtual_iff kbId row).mp hv
  have hget' := KnowledgeFiles.get_of_update h
  have hne : id ≠ folder := by
    intro heq
    rw [heq, hfrow] at hrow
    cases hrow
    exact hfile hisFolder
  have hname : row.filename = frow.filename ++ '/' :: (splitSlash row.filename).2 := by
    rw [hfname, ← hsegment]
    exact splitSlash_eq hslash
  have hmoved : ∀ k, files'.get k =
      if k = id then some { row with parentId := some folder,
                                     filename := (splitSlash row.filename).2 }
      else files.get k := by
    intro k
    rw [hget']
    split
    · next hk => rw [hk, hrow, Option.map_some]
    · rfl
  have hpeel : Peels files files' id folder :=
    ⟨hne, row, frow, _, hrow, hfrow, hfparent.trans hparent.symm, hname, hmoved⟩
  have hmigrated : Migrated kbId files files' := by
    constructor
    · intro k krow hget
      by_cases hk : k = id
      · rw [hk, hrow] at hget
        cases hget
        refine ⟨_, (hmoved k).trans (if_pos hk), rfl, rfl, fun hcontra => ?_⟩
        exact absurd hcontra hfile
      · exact ⟨krow, by rw [hmoved, if_neg hk, hget], rfl, rfl, fun _ => rfl⟩
    · intro k _ path
      exact logicalPath_of_peel hpeel k path
    · intro k row' hnone hget
      rw [hmoved] at hget
      split at hget
      · next hk => simp [hk, hrow] at hnone
      · simp [hnone] at hget
    · intro k row' twin trow hnone hget
      rw [hmoved] at hget
      split at hget
      · next hk => simp [hk, hrow] at hnone
      · simp [hnone] at hget
    · intro k row' hget hv'
      rw [hmoved] at hget
      split at hget
      · next hk => exact ⟨row, hk ▸ hrow, hv⟩
      · exact ⟨row', hget, hv'⟩
  refine ⟨hmigrated, ?_, fun k hk => ?_⟩
  · have htable : files'.table = files.table.modify id fun row =>
        { row with parentId := some folder, filename := (splitSlash row.filename).2 } :=
      KnowledgeFiles.ofTable_eq_some h
    have hsum := files.table.total_modify hrow
      (fun row : KnowledgeFile ι =>
        { row with parentId := some folder, filename := (splitSlash row.filename).2 })
      (slashes kbId)
    have hcount := count_splitSlash hslash
    rw [htable, List.length_singleton]
    simp only [slashes, hkb, hfile, ne_eq, not_false_eq_true, and_self, if_true] at hsum ⊢
    omega
  · rw [hmoved, if_neg (by simpa using hk)]

theorem Pending.of_get_eq (h : Pending kbId files parentId segment id)
    (hget : files'.get id = files.get id) : Pending kbId files' parentId segment id := by
  obtain ⟨row, hrow, hrest⟩ := h
  exact ⟨row, hget.trans hrow, hrest⟩

theorem Receives.of_migrated (h : Receives files parentId segment folder)
    (hm : Migrated kbId files files') :
    Receives files' parentId segment folder := by
  obtain ⟨frow, hfrow, hisFolder, hfparent, hfname⟩ := h
  obtain ⟨frow', hfrow', -, -, hsame⟩ := hm.kept folder frow hfrow
  rw [hsame hisFolder] at hfrow'
  exact ⟨frow, hfrow', hisFolder, hfparent, hfname⟩

variable {ids : List ι}

theorem Moved.cons {files₁ files₂ : KnowledgeFiles ι} (h₁ : Moved kbId files files₁ [id])
    (h₂ : Moved kbId files₁ files₂ ids) :
    Moved kbId files files₂ (id :: ids) where
  migrated := h₁.migrated.trans h₂.migrated
  total := by
    have ht₁ := h₁.total
    have ht₂ := h₂.total
    simp only [List.length_cons, List.length_nil] at ht₁ ⊢
    omega
  other := by
    intro k hk
    simp only [List.mem_cons, not_or] at hk
    rw [h₂.other k hk.2, h₁.other k (by simpa using hk.1)]

theorem moveRecords_spec (hnodup : ids.Nodup)
    (hpending : ∀ id ∈ ids, Pending kbId files parentId segment id)
    (hfolder : Receives files parentId segment folder)
    (h : ids.foldlM (moveRecord folder) files = some files') : Moved kbId files files' ids := by
  induction ids generalizing files with
  | nil =>
    have heq : files = files' := Option.some.inj h
    subst heq
    exact ⟨Migrated.refl kbId files, rfl, fun _ _ => rfl⟩
  | cons id ids ih =>
    rw [List.foldlM_cons] at h
    obtain ⟨files₁, hfirst, hrest⟩ := Option.bind_eq_some_iff.mp h
    have hmoved := moveRecord_spec (hpending id (by simp)) hfolder hfirst
    rw [List.nodup_cons] at hnodup
    refine hmoved.cons (ih hnodup.2 ?_ (hfolder.of_migrated hmoved.migrated) hrest)
    intro k hk
    have hne : k ∉ [id] := by
      intro hmem
      rw [List.mem_singleton] at hmem
      exact hnodup.1 (hmem ▸ hk)
    exact (hpending k (by simp [hk])).of_get_eq (hmoved.other k hne)

/-! ## The groups of a batch -/

/-- The identifiers in all groups. -/
def groupedIds (groups : List (Group ι)) : List ι :=
  groups.flatMap Group.fileIds

theorem groupedIds_addToGroup (groups : List (Group ι)) (parentId : Option ι)
    (segment : List Char) (id : ι) :
    (groupedIds (addToGroup groups parentId segment id)).Perm (groupedIds groups ++ [id]) := by
  induction groups with
  | nil => simp [groupedIds, addToGroup]
  | cons g rest ih =>
    simp only [addToGroup]
    split
    · simp only [groupedIds, List.flatMap_cons, List.append_assoc]
      exact List.Perm.append_left _ List.perm_append_comm
    · simp only [groupedIds, List.flatMap_cons, List.append_assoc] at ih ⊢
      exact List.Perm.append_left _ ih

/-- The files of a group lie in its folder and start with its segment. -/
def Sorted (records : List (ι × KnowledgeFile ι)) (g : Group ι) : Prop :=
  ∀ id ∈ g.fileIds, ∃ row, (id, row) ∈ records ∧ row.parentId = g.parentId ∧
    (splitSlash row.filename).1 = g.segment

variable {records : List (ι × KnowledgeFile ι)} {groups : List (Group ι)}

theorem sorted_addToGroup (h : ∀ g ∈ groups, Sorted records g) (hmem : (id, row) ∈ records) :
    ∀ g ∈ addToGroup groups row.parentId (splitSlash row.filename).1 id, Sorted records g := by
  induction groups with
  | nil =>
    intro g hg
    simp only [addToGroup, List.mem_singleton] at hg
    subst hg
    intro k hk
    rw [List.mem_singleton] at hk
    exact ⟨row, hk ▸ hmem, rfl, rfl⟩
  | cons g₀ rest ih =>
    have hrest := ih fun g hg => h g (by simp [hg])
    intro g hg
    simp only [addToGroup] at hg
    split at hg
    · next hkey =>
      rcases List.mem_cons.mp hg with heq | hg
      · subst heq
        intro k hk
        rcases List.mem_append.mp hk with hold | hnew
        · exact h g₀ (by simp) k hold
        · rw [List.mem_singleton] at hnew
          exact ⟨row, hnew ▸ hmem, hkey.1.symm, hkey.2.symm⟩
      · exact h g (by simp [hg])
    · rcases List.mem_cons.mp hg with heq | hg
      · exact heq ▸ h g₀ (by simp)
      · exact hrest g hg

theorem fileIds_addToGroup_ne_nil (h : ∀ g ∈ groups, g.fileIds ≠ [])
    (parentId : Option ι) (segment : List Char) (id : ι) :
    ∀ g ∈ addToGroup groups parentId segment id, g.fileIds ≠ [] := by
  induction groups with
  | nil => simp [addToGroup]
  | cons g₀ rest ih =>
    have hrest := ih fun g hg => h g (by simp [hg])
    intro g hg
    simp only [addToGroup] at hg
    split at hg
    · rcases List.mem_cons.mp hg with heq | hg
      · simp [heq]
      · exact h g (by simp [hg])
    · rcases List.mem_cons.mp hg with heq | hg
      · exact heq ▸ h g₀ (by simp)
      · exact hrest g hg

theorem fileIds_groupRecords_ne_nil (records : List (ι × KnowledgeFile ι)) :
    ∀ g ∈ (groupRecords records).groups, g.fileIds ≠ [] := by
  suffices hfold : ∀ acc : Grouping ι, (∀ g ∈ acc.groups, g.fileIds ≠ []) →
      ∀ g ∈ (records.foldl groupRecord acc).groups, g.fileIds ≠ [] from
    hfold ⟨[], []⟩ (by simp)
  intro acc hacc
  induction records generalizing acc with
  | nil => exact hacc
  | cons e records ih =>
    apply ih (groupRecord acc e)
    unfold groupRecord
    split
    · exact hacc
    · exact fileIds_addToGroup_ne_nil hacc _ _ _

theorem foldl_groupRecord (all records : List (ι × KnowledgeFile ι)) (acc : Grouping ι)
    (hsub : ∀ e ∈ records, e ∈ all) (hacc : ∀ g ∈ acc.groups, Sorted all g) :
    (groupedIds (records.foldl groupRecord acc).groups ++
        (records.foldl groupRecord acc).conflictFileIds).Perm
      (groupedIds acc.groups ++ acc.conflictFileIds ++ records.map Prod.fst) ∧
    ∀ g ∈ (records.foldl groupRecord acc).groups, Sorted all g := by
  induction records generalizing acc with
  | nil => exact ⟨by simp, hacc⟩
  | cons e records ih =>
    have hsub' : ∀ e' ∈ records, e' ∈ all := fun e' he' => hsub e' (by simp [he'])
    simp only [List.foldl_cons]
    by_cases hrejected : isRejected e.2.filename
    · have hstep : groupRecord acc e =
          { acc with conflictFileIds := acc.conflictFileIds ++ [e.1] } := by
        simp [groupRecord, hrejected]
      obtain ⟨hperm, hsorted⟩ := ih (groupRecord acc e) hsub' (by simpa [hstep] using hacc)
      refine ⟨hperm.trans ?_, hsorted⟩
      simp [hstep]
    · have hstep : groupRecord acc e =
          { acc with
            groups := addToGroup acc.groups e.2.parentId (splitSlash e.2.filename).1 e.1 } := by
        simp [groupRecord, hrejected]
      have hacc' : ∀ g ∈ (groupRecord acc e).groups, Sorted all g := by
        rw [hstep]
        exact sorted_addToGroup hacc (hsub e (by simp))
      obtain ⟨hperm, hsorted⟩ := ih (groupRecord acc e) hsub' hacc'
      refine ⟨hperm.trans ?_, hsorted⟩
      rw [hstep]
      have hadd := groupedIds_addToGroup acc.groups e.2.parentId (splitSlash e.2.filename).1 e.1
      refine ((hadd.append_right _).append_right _).trans ?_
      simp only [List.append_assoc, List.map_cons]
      apply List.Perm.append_left
      have hswap : ([e.1] ++ acc.conflictFileIds).Perm (acc.conflictFileIds ++ [e.1]) :=
        List.perm_append_comm
      simpa using hswap.append_right (records.map Prod.fst)

theorem groupRecords_spec (records : List (ι × KnowledgeFile ι)) :
    (groupedIds (groupRecords records).groups ++ (groupRecords records).conflictFileIds).Perm
      (records.map Prod.fst) ∧
    ∀ g ∈ (groupRecords records).groups, Sorted records g := by
  have hfold := foldl_groupRecord records records ⟨[], []⟩ (fun _ he => he) (by simp)
  simpa [groupedIds, groupRecords] using hfold

/-- What handling some identifiers does to the state of a batch. -/
structure Handled (kbId : String) (s s' : BatchState ι) (ids : List ι) : Prop where
  migrated : Migrated kbId s.files s'.files
  total : s'.files.table.total (slashes kbId) + s'.processed =
    s.files.table.total (slashes kbId) + s.processed
  other : ∀ k, k ∉ ids → (s.files.get k).isSome → s'.files.get k = s.files.get k
  progress : s.processed ≤ s'.processed
  reports : ∀ k ∈ s.conflictFileIds, k ∈ s'.conflictFileIds
  settled : ∀ k ∈ ids, k ∈ s'.conflictFileIds ∨ s.processed < s'.processed

theorem Handled.refl (kbId : String) (s : BatchState ι) : Handled kbId s s [] where
  migrated := Migrated.refl kbId s.files
  total := rfl
  other := fun _ _ _ => rfl
  progress := le_rfl
  reports := fun _ hk => hk
  settled := fun k hk => by simp at hk

variable {s : BatchState ι}

theorem Handled.append {s₁ s₂ : BatchState ι} {ids₁ ids₂ : List ι}
    (h₁ : Handled kbId s s₁ ids₁) (h₂ : Handled kbId s₁ s₂ ids₂) :
    Handled kbId s s₂ (ids₁ ++ ids₂) where
  migrated := h₁.migrated.trans h₂.migrated
  total := h₂.total.trans h₁.total
  other := by
    intro k hk hsome
    simp only [List.mem_append, not_or] at hk
    rw [h₂.other k hk.2 (h₁.migrated.isSome_of hsome), h₁.other k hk.1 hsome]
  progress := h₁.progress.trans h₂.progress
  reports := fun k hk => h₂.reports k (h₁.reports k hk)
  settled := by
    intro k hk
    have hle₁ := h₁.progress
    have hle₂ := h₂.progress
    rcases List.mem_append.mp hk with hk | hk
    · rcases h₁.settled k hk with hmem | hlt
      · exact Or.inl (h₂.reports k hmem)
      · exact Or.inr (by omega)
    · rcases h₂.settled k hk with hmem | hlt
      · exact Or.inl hmem
      · exact Or.inr (by omega)

/-- A clash leaves the files of the group where they are and reports them. -/
theorem handled_of_conflict (kbId : String) (s : BatchState ι) (ids : List ι) :
    Handled kbId s { s with conflictFileIds := s.conflictFileIds ++ ids } ids where
  migrated := Migrated.refl kbId s.files
  total := rfl
  other := fun _ _ _ => rfl
  progress := le_rfl
  reports := fun _ hk => List.mem_append_left _ hk
  settled := fun _ hk => Or.inl (List.mem_append_right _ hk)

variable {s' : BatchState ι}

theorem handled_of_moveGroup (hnodup : g.fileIds.Nodup)
    (hpending : ∀ id ∈ g.fileIds, Pending kbId s.files g.parentId g.segment id)
    (hfolder : Receives s.files g.parentId g.segment folder)
    (h : moveGroup folder s g.fileIds = some s') : Handled kbId s s' g.fileIds := by
  obtain ⟨files, hmoves, rfl⟩ := Option.map_eq_some_iff.mp h
  have hmoved := moveRecords_spec hnodup hpending hfolder hmoves
  have htotal := hmoved.total
  constructor
  · exact hmoved.migrated
  · simp only
    omega
  · exact fun k hk _ => hmoved.other k hk
  · exact Nat.le_add_right _ _
  · exact fun k hk => hk
  · intro k hk
    have hpos : 0 < g.fileIds.length := List.length_pos_of_mem hk
    exact Or.inr (by simp only; omega)

variable {freshId : Nat → ι}

theorem migrateGroup_spec (hnodup : g.fileIds.Nodup)
    (hpending : ∀ id ∈ g.fileIds, Pending kbId s.files g.parentId g.segment id)
    (h : migrateGroup kbId freshId s g = some s') : Handled kbId s s' g.fileIds := by
  unfold migrateGroup at h
  split at h
  · next hnone =>
    obtain ⟨files, hinsert, hmove⟩ := Option.bind_eq_some_iff.mp h
    have hmigrated := migrated_of_insert hnone hinsert
    obtain ⟨hfresh, hget'⟩ := KnowledgeFiles.get_of_insert hinsert
    have hkept : ∀ k, (s.files.get k).isSome → files.get k = s.files.get k := by
      intro k hk
      have hne : k ≠ freshId s.createdFolders := by
        intro heq
        simp [heq, hfresh] at hk
      rw [hget', if_neg hne]
    have hzero : slashes kbId (newFolder kbId g) = 0 := by simp [slashes, newFolder]
    have htotal : files.table.total (slashes kbId) = s.files.table.total (slashes kbId) := by
      obtain ⟨t, ht, hof⟩ := Option.bind_eq_some_iff.mp hinsert
      rw [KnowledgeFiles.ofTable_eq_some hof, Table.total_of_insert ht, hzero, Nat.add_zero]
    have hcreated : Handled kbId s
        { s with files := files, createdFolders := s.createdFolders + 1 } [] := by
      constructor
      · exact hmigrated
      · rw [htotal]
      · exact fun k _ hk => hkept k hk
      · exact le_rfl
      · exact fun k hk => hk
      · intro k hk
        simp at hk
    have hfolder : Receives files g.parentId g.segment (freshId s.createdFolders) :=
      ⟨newFolder kbId g, by rw [hget', if_pos rfl], rfl, rfl, rfl⟩
    have hpending' : ∀ id ∈ g.fileIds, Pending kbId files g.parentId g.segment id := by
      intro id hid
      obtain ⟨row, hrow, -⟩ := hpending id hid
      exact (hpending id hid).of_get_eq (hkept id (by simp [hrow]))
    exact hcreated.append (handled_of_moveGroup hnodup hpending' hfolder hmove)
  · next folder row hone =>
    split at h
    · next hisFolder =>
      have hmem : (folder, row) ∈ siblings s.files kbId g.parentId g.segment := by
        rw [hone]
        exact List.mem_singleton_self _
      obtain ⟨hrow, -, hparent, hname⟩ := mem_siblings.mp hmem
      exact handled_of_moveGroup hnodup hpending ⟨row, hrow, hisFolder, hparent, hname⟩ h
    · cases h
      exact handled_of_conflict kbId s g.fileIds
  · cases h
    exact handled_of_conflict kbId s g.fileIds

theorem migrateGroups_spec (hnodup : (groupedIds groups).Nodup)
    (hpending : ∀ g ∈ groups, ∀ id ∈ g.fileIds, Pending kbId s.files g.parentId g.segment id)
    (h : groups.foldlM (migrateGroup kbId freshId) s = some s') :
    Handled kbId s s' (groupedIds groups) := by
  induction groups generalizing s with
  | nil =>
    have heq : s = s' := Option.some.inj h
    subst heq
    exact Handled.refl kbId s
  | cons g groups ih =>
    rw [List.foldlM_cons] at h
    obtain ⟨s₁, hfirst, hrest⟩ := Option.bind_eq_some_iff.mp h
    simp only [groupedIds, List.flatMap_cons, List.nodup_append] at hnodup
    obtain ⟨hnodup₁, hnodup₂, hdisjoint⟩ := hnodup
    have hhandled := migrateGroup_spec hnodup₁ (hpending g (by simp)) hfirst
    refine hhandled.append (ih hnodup₂ ?_ hrest)
    intro g' hg' id hid
    have hold := hpending g' (by simp [hg']) id hid
    have hsome : (s.files.get id).isSome := by
      obtain ⟨row, hrow, -⟩ := hold
      simp [hrow]
    have hnotMem : id ∉ g.fileIds := fun hmem =>
      hdisjoint id hmem id (List.mem_flatMap.mpr ⟨g', hg', hid⟩) rfl
    exact hold.of_get_eq (hhandled.other id hnotMem hsome)

/-! ## Scanning -/

section Scan

variable {files : KnowledgeFiles ι} {kbId : String} {afterFileId : Option ι} {batchSize : Nat}
  {id : ι} {row : KnowledgeFile ι}

theorem mem_orderedRecords :
    (id, row) ∈ orderedRecords files kbId afterFileId ↔
      files.get id = some row ∧ isVirtual kbId row ∧ ∀ after, afterFileId = some after → after < id := by
  rw [orderedRecords, List.mem_insertionSort, List.mem_filter, Table.mem_rows_iff]
  cases afterFileId <;> simp [KnowledgeFiles.get]

theorem orderedRecords_pairwise :
    (orderedRecords files kbId afterFileId).Pairwise fun a b => a.1 < b.1 := by
  have hsorted := List.pairwise_insertionSort (fun a b : ι × KnowledgeFile ι => a.1 ≤ b.1)
    (files.table.rows.filter fun e =>
      isVirtual kbId e.2 && afterFileId.all fun after => decide (after < e.1))
  have hkeys : ((orderedRecords files kbId afterFileId).map Prod.fst).Nodup := by
    have hperm := (List.perm_insertionSort (fun a b : ι × KnowledgeFile ι => a.1 ≤ b.1)
      (files.table.rows.filter fun e =>
        isVirtual kbId e.2 && afterFileId.all fun after => decide (after < e.1))).map Prod.fst
    rw [orderedRecords, hperm.nodup_iff]
    exact (List.filter_sublist.map Prod.fst).nodup files.table.nodupKeys
  have hne := List.pairwise_map.mp hkeys
  exact (hsorted.and hne).imp fun h => lt_of_le_of_ne h.1 h.2

theorem scanRecords_nodup : ((scanRecords files kbId afterFileId batchSize).map Prod.fst).Nodup := by
  have hpairwise : (scanRecords files kbId afterFileId batchSize).Pairwise fun a b => a.1 < b.1 :=
    orderedRecords_pairwise.sublist (List.take_sublist _ _)
  exact List.pairwise_map.mpr (hpairwise.imp fun h => ne_of_lt h)

theorem mem_scanRecords_of_le {last : ι × KnowledgeFile ι}
    (hmem : (id, row) ∈ orderedRecords files kbId afterFileId)
    (hlast : (scanRecords files kbId afterFileId batchSize).getLast? = some last)
    (hle : id ≤ last.1) : (id, row) ∈ scanRecords files kbId afterFileId batchSize := by
  have hsplit := List.take_append_drop batchSize (orderedRecords files kbId afterFileId)
  rw [← hsplit, List.mem_append] at hmem
  rcases hmem with htake | hdrop
  · exact htake
  · have hpairwise : (orderedRecords files kbId afterFileId).Pairwise fun a b => a.1 < b.1 :=
      orderedRecords_pairwise
    rw [← hsplit, List.pairwise_append] at hpairwise
    have hlt := hpairwise.2.2 last (List.mem_of_getLast? hlast) (id, row) hdrop
    exact absurd hle (not_le_of_gt hlt)

end Scan

/-! ## What one batch does -/

/-- The records a batch leaves, what it counts and what it reports. -/
structure BatchSpec (kbId : String) (files files' : KnowledgeFiles ι)
    (records : List (ι × KnowledgeFile ι)) (batch : BatchResult ι) : Prop where
  migrated : Migrated kbId files files'
  remaining : (detectVirtualFolderData files' kbId).remainingSteps + batch.processed =
    (detectVirtualFolderData files kbId).remainingSteps
  settled : ∀ record ∈ records, record.1 ∈ batch.conflictFileIds ∨ 0 < batch.processed
  scanned : batch.scanned = records.length
  lastFileId : batch.lastFileId = records.getLast?.map Prod.fst

variable {batchSize : Nat} {batch : BatchResult ι}

theorem migrateVirtualFolderBatch_spec {afterFileId : Option ι}
    (h : migrateVirtualFolderBatch files kbId afterFileId batchSize freshId =
      some (files', batch)) :
    BatchSpec kbId files files' (scanRecords files kbId afterFileId batchSize) batch := by
  unfold migrateVirtualFolderBatch at h
  generalize hrecords : scanRecords files kbId afterFileId batchSize = records at h
  simp only at h
  split at h
  · next hnil =>
    cases h
    subst hnil
    exact ⟨Migrated.refl kbId files, rfl, by simp, rfl, rfl⟩
  · obtain ⟨s, hgroups, heq⟩ := Option.map_eq_some_iff.mp h
    cases heq
    obtain ⟨hperm, hsorted⟩ := groupRecords_spec records
    have hkeys : (records.map Prod.fst).Nodup := hrecords ▸ scanRecords_nodup
    have hnodup := hperm.nodup_iff.mpr hkeys
    have hpending : ∀ g ∈ (groupRecords records).groups, ∀ id ∈ g.fileIds,
        Pending kbId files g.parentId g.segment id := by
      intro g hg id hid
      obtain ⟨row, hmem, hparent, hsegment⟩ := hsorted g hg id hid
      rw [← hrecords] at hmem
      obtain ⟨hrow, hv, -⟩ := mem_orderedRecords.mp (List.mem_of_mem_take hmem)
      exact ⟨row, hrow, hv, hparent, hsegment⟩
    have hhandled := migrateGroups_spec (List.nodup_append.mp hnodup).1 hpending hgroups
    refine ⟨hhandled.migrated, ?_, fun record hrecord => ?_, rfl, rfl⟩
    · rw [remainingSteps_eq, remainingSteps_eq]
      exact hhandled.total
    · have hid : record.1 ∈ groupedIds (groupRecords records).groups ++
          (groupRecords records).conflictFileIds :=
        hperm.mem_iff.mpr (List.mem_map_of_mem hrecord)
      rcases List.mem_append.mp hid with hgrouped | hrejected
      · exact hhandled.settled record.1 hgrouped
      · exact Or.inl (hhandled.reports record.1 hrejected)

/-- A batch that does not report everything it scanned takes slashes away. -/
theorem BatchSpec.remaining_lt (h : BatchSpec kbId files files' records batch)
    (hmoved : ∃ record ∈ records, record.1 ∉ batch.conflictFileIds) :
    (detectVirtualFolderData files' kbId).remainingSteps <
      (detectVirtualFolderData files kbId).remainingSteps := by
  obtain ⟨record, hmem, hnot⟩ := hmoved
  have hremaining := h.remaining
  rcases h.settled record hmem with hreported | hpos
  · exact absurd hreported hnot
  · omega

/-! ## Any number of rounds -/

theorem step_migrated (kbId : String) (m : Migration ι) (round : Round ι) :
    Migrated kbId m.files (step kbId m round).files := by
  unfold step
  split
  · split
    · exact Migrated.refl kbId m.files
    · next files batch hbatch =>
      have hspec := migrateVirtualFolderBatch_spec hbatch
      split
      · split <;> exact hspec.migrated
      · exact hspec.migrated
  · exact Migrated.refl kbId m.files

/-- A pass without progress has reported every file up to its cursor, and the loop ends with
such a pass. -/
structure PassInv (kbId : String) (m : Migration ι) : Prop where
  reported : m.passProgress = 0 → ∀ id row cursor, m.cursor = some cursor →
    m.files.get id = some row → isVirtual kbId row → id ≤ cursor → id ∈ m.conflictFileIds
  finished : m.status = .finished → ∀ id row, m.files.get id = some row → isVirtual kbId row →
    id ∈ m.conflictFileIds

theorem passInv_start (kbId : String) (files : KnowledgeFiles ι) :
    PassInv kbId (Migration.start files) where
  reported := fun _ _ _ _ hcursor => by simp [Migration.start] at hcursor
  finished := fun hstatus => by simp [Migration.start] at hstatus

/-- Where a batch finds nothing, every file with a slash is at or before the cursor. -/
theorem le_cursor_of_scanned_eq_zero {cursor : Option ι} (hsize : 0 < batchSize)
    (hnil : scanRecords files kbId cursor batchSize = []) (hget : files.get id = some row)
    (hv : isVirtual kbId row) :
    ∃ after, cursor = some after ∧ id ≤ after := by
  by_contra hnone
  push Not at hnone
  have hmem : (id, row) ∈ orderedRecords files kbId cursor :=
    mem_orderedRecords.mpr ⟨hget, hv, hnone⟩
  have hempty : orderedRecords files kbId cursor = [] := by
    rcases List.take_eq_nil_iff.mp hnil with hzero | hempty
    · omega
    · exact hempty
  rw [hempty] at hmem
  simp at hmem

variable {m : Migration ι} {round : Round ι}

theorem passInv_advance (hrunning : m.status = .running) (h : PassInv kbId m)
    (hspec : BatchSpec kbId m.files files
      (scanRecords m.files kbId m.cursor round.batchSize) batch) :
    PassInv kbId (m.advance files batch) := by
  constructor
  · intro hprogress id row cursor hcursor hget hv hle
    simp only [Migration.advance] at hprogress hcursor hget ⊢
    -- no progress now, so none before and everything scanned is reported
    have hold : m.passProgress = 0 := by omega
    have hprocessed : batch.processed = 0 := by omega
    obtain ⟨row₀, hget₀, hv₀⟩ := hspec.migrated.isVirtual_of id row hget hv
    rw [hspec.lastFileId] at hcursor
    obtain ⟨last, hlast, rfl⟩ := Option.map_eq_some_iff.mp hcursor
    rw [List.mem_append]
    by_cases hahead : ∀ after, m.cursor = some after → after < id
    · right
      have hmem := mem_scanRecords_of_le (mem_orderedRecords.mpr ⟨hget₀, hv₀, hahead⟩) hlast hle
      rcases hspec.settled (id, row₀) hmem with hreported | hpos
      · exact hreported
      · omega
    · left
      push Not at hahead
      obtain ⟨after, hafter, hle'⟩ := hahead
      exact h.reported hold id row₀ after hafter hget₀ hv₀ hle'
  · intro hfinished
    simp [Migration.advance, hrunning] at hfinished

theorem step_passInv (hsize : 0 < round.batchSize) (h : PassInv kbId m) : PassInv kbId
    (step kbId m round) := by
  unfold step
  split
  · next hrunning =>
    split
    · exact ⟨h.reported, fun hstatus => by simp at hstatus⟩
    · next files batch hbatch =>
      have hspec := migrateVirtualFolderBatch_spec hbatch
      split
      · next hscanned =>
        have hnil : scanRecords m.files kbId m.cursor round.batchSize = [] := by
          apply List.eq_nil_of_length_eq_zero
          rw [← hspec.scanned, hscanned]
        split
        · next hprogress =>
          have hall : ∀ id row, files.get id = some row → isVirtual kbId row →
              id ∈ m.conflictFileIds := by
            intro id row hget hv
            obtain ⟨row₀, hget₀, hv₀⟩ := hspec.migrated.isVirtual_of id row hget hv
            obtain ⟨after, hcursor, hle⟩ := le_cursor_of_scanned_eq_zero hsize hnil hget₀ hv₀
            exact h.reported hprogress id row₀ after hcursor hget₀ hv₀ hle
          exact ⟨fun _ id row _ _ hget hv _ => hall id row hget hv, fun _ => hall⟩
        · constructor
          · intro _ _ _ _ hcursor
            simp at hcursor
          · intro hfinished
            simp [hrunning] at hfinished
      · exact passInv_advance hrunning h hspec
  · exact h

theorem exec_passInv (kbId : String) {rounds : List (Round ι)}
    (hsize : ∀ round ∈ rounds, 0 < round.batchSize) (h : PassInv kbId m) :
    PassInv kbId (Transition.exec (step kbId) m rounds) := by
  induction rounds generalizing m with
  | nil => exact h
  | cons round rounds ih =>
    have hstep := step_passInv (hsize round (by simp)) h
    exact ih (fun r hr => hsize r (by simp [hr])) hstep

/-- Over any number of rounds of the migration the paths of all records stay, no record is lost
and no folder is created twice; a batch that does not report all it scanned takes slashes away;
and when the loop ends, every file with a slash in its name is reported. -/
theorem migration_keeps_paths (kbId : String) (files : KnowledgeFiles ι) (rounds : List (Round ι)) :
    Migrated kbId files (migrateVirtualFolderData kbId files rounds).files ∧
    (∀ afterFileId batchSize freshId files' batch,
      migrateVirtualFolderBatch (migrateVirtualFolderData kbId files rounds).files kbId
          afterFileId batchSize freshId = some (files', batch) →
        Migrated kbId (migrateVirtualFolderData kbId files rounds).files files' ∧
        ((∃ record ∈ scanRecords (migrateVirtualFolderData kbId files rounds).files kbId
            afterFileId batchSize, record.1 ∉ batch.conflictFileIds) →
          (detectVirtualFolderData files' kbId).remainingSteps <
            (detectVirtualFolderData (migrateVirtualFolderData kbId files rounds).files
              kbId).remainingSteps)) ∧
    ((∀ round ∈ rounds, 0 < round.batchSize) →
      (migrateVirtualFolderData kbId files rounds).status = .finished →
      ∀ id row, (migrateVirtualFolderData kbId files rounds).files.get id = some row →
        isVirtual kbId row → id ∈ (migrateVirtualFolderData kbId files rounds).conflictFileIds) := by
  refine ⟨?_, ?_, ?_⟩
  · exact Transition.exec_rel (R := fun a b => Migrated kbId a.files b.files) (step kbId)
      (fun m => Migrated.refl kbId m.files) (fun h₁ h₂ => h₁.trans h₂)
      (fun m round => step_migrated kbId m round) (Migration.start files) rounds
  · intro afterFileId batchSize freshId files' batch hbatch
    have hspec := migrateVirtualFolderBatch_spec hbatch
    exact ⟨hspec.migrated, hspec.remaining_lt⟩
  · intro hsize hfinished
    exact (exec_passInv kbId hsize (passInv_start kbId files)).finished hfinished

/-- One file below two virtual folders beside a name that cannot be split. -/
def sampleFiles : KnowledgeFiles Nat where
  table :=
    { rows :=
        [(1, ⟨"kb", none, ['a', '/', 'b', '/', 'c'], some false⟩),
          (2, ⟨"kb", none, ['/', 'x'], none⟩)]
      nodupKeys := by decide }
  parentExists := (KnowledgeFiles.parentsExist_iff _).mp (by decide)

def sampleRounds : List (Round Nat) :=
  (List.range 10).map fun i => ⟨1, fun n => 100 + 10 * i + n⟩

theorem migration_keeps_paths_sample :
    LogicalPath (migrateVirtualFolderData "kb" sampleFiles sampleRounds).files 1
        ['a', '/', 'b', '/', 'c'] ∧
      2 ∈ (migrateVirtualFolderData "kb" sampleFiles sampleRounds).conflictFileIds := by
  obtain ⟨hmigrated, -, hfinished⟩ := migration_keeps_paths "kb" sampleFiles sampleRounds
  refine ⟨(hmigrated.paths 1 (by decide) _).mpr ?_, ?_⟩
  · exact ⟨⟨"kb", none, ['a', '/', 'b', '/', 'c'], some false⟩, [], by decide,
      AncestorText.root, rfl⟩
  · exact hfinished (by decide) (by decide +kernel) 2 ⟨"kb", none, ['/', 'x'], none⟩
      (by decide +kernel) (by decide)

end Yuanlei.FolderMigration
