import Yuanlei.Lib.Table

/-!
# Records of the files and folders of a knowledge base

The rows of `knowledge_files` name their folder by `parent_id`, a foreign key into the
same table with `ON DELETE SET NULL`.  `KnowledgeFiles` is a table that meets the
constraint: a statement that would break it fails.  Identifiers carry a non-empty tag
(`file_`, `folder-`), so the truth tests of the code on an identifier ask whether it is
null.

Main results:

- `KnowledgeFiles.get_of_insert`, `KnowledgeFiles.get_of_update`: what a statement
  that meets the constraints does to the rows.
- `KnowledgeFiles.get_delete`: a deletion clears the parent of the rows below.
-/

namespace Yuanlei

/-- The columns of a row of `knowledge_files` that the directory tree depends on. -/
structure KnowledgeFile (ι : Type) where
  kbId : String
  parentId : Option ι
  filename : List Char
  isFolder : Option Bool
deriving DecidableEq

/-- `is_folder` is false or null. -/
def KnowledgeFile.isFile {ι : Type} (row : KnowledgeFile ι) : Bool :=
  row.isFolder != some true

theorem KnowledgeFile.isFile_eq_true {ι : Type} (row : KnowledgeFile ι) :
    row.isFile = true ↔ row.isFolder ≠ some true := by
  simp [isFile]

/-- The table with its foreign key. -/
structure KnowledgeFiles (ι : Type) [DecidableEq ι] where
  table : Table ι (KnowledgeFile ι)
  parentExists : ∀ id row parent, table.get id = some row → row.parentId = some parent →
    (table.get parent).isSome

namespace KnowledgeFiles

variable {ι : Type} [DecidableEq ι]

def get (files : KnowledgeFiles ι) (id : ι) : Option (KnowledgeFile ι) :=
  files.table.get id

/-- The check of the foreign key at the end of a statement. -/
def parentsExist (t : Table ι (KnowledgeFile ι)) : Bool :=
  t.rows.all fun e => e.2.parentId.all fun parent => (t.get parent).isSome

theorem parentsExist_iff (t : Table ι (KnowledgeFile ι)) :
    parentsExist t ↔ ∀ id row parent, t.get id = some row → row.parentId = some parent →
      (t.get parent).isSome := by
  simp only [parentsExist, List.all_eq_true]
  constructor
  · intro h id row parent hget hparent
    have hrow := h (id, row) ((t.mem_rows_iff id row).mpr hget)
    simpa [hparent] using hrow
  · intro h e hmem
    have hget := (t.mem_rows_iff e.1 e.2).mp hmem
    cases hparent : e.2.parentId with
    | none => simp
    | some parent => simpa using h e.1 e.2 parent hget hparent

/-- The table after a statement, if it meets the foreign key. -/
def ofTable (t : Table ι (KnowledgeFile ι)) : Option (KnowledgeFiles ι) :=
  if h : parentsExist t then some ⟨t, (parentsExist_iff t).mp h⟩ else none

variable {files : KnowledgeFiles ι}

theorem ofTable_eq_some {t : Table ι (KnowledgeFile ι)} (h : ofTable t = some files) : files.table = t := by
  unfold ofTable at h
  split at h
  · cases h
    rfl
  · cases h

/-- Insert a row; `none` is a violation of the unique identifier or of the foreign key. -/
def insert (files : KnowledgeFiles ι) (id : ι) (row : KnowledgeFile ι) :
    Option (KnowledgeFiles ι) :=
  (files.table.insert id row).bind ofTable

/-- Rewrite the row with an identifier; `none` is a violation of the foreign key. -/
def update (files : KnowledgeFiles ι) (id : ι) (f : KnowledgeFile ι → KnowledgeFile ι) :
    Option (KnowledgeFiles ι) :=
  ofTable (files.table.modify id f)

/-- `ON DELETE SET NULL` -/
def clearParent (id : ι) (row : KnowledgeFile ι) : KnowledgeFile ι :=
  if row.parentId = some id then { row with parentId := none } else row

/-- Delete the row with an identifier. -/
def delete (files : KnowledgeFiles ι) (id : ι) : KnowledgeFiles ι where
  table := (files.table.erase id).mapRows fun _ => clearParent id
  parentExists := by
    intro k row parent hget hparent
    rw [Table.get_mapRows, Table.get_erase] at hget
    by_cases hk : k = id
    · simp [hk] at hget
    · rw [if_neg hk, Option.map_eq_some_iff] at hget
      obtain ⟨old, hold, rfl⟩ := hget
      unfold clearParent at hparent
      split at hparent
      · simp at hparent
      · next hne =>
        have hparent_ne : parent ≠ id := by
          intro heq
          exact hne (heq ▸ hparent)
        have hexists := files.parentExists k old parent hold hparent
        rw [Table.get_mapRows, Table.get_erase, if_neg hparent_ne, Option.isSome_map]
        exact hexists

variable {files' : KnowledgeFiles ι} {id : ι} {row : KnowledgeFile ι}

theorem get_of_insert (h : files.insert id row = some files') :
    files.get id = none ∧ ∀ k, files'.get k = if k = id then some row else files.get k := by
  obtain ⟨t, ht, hof⟩ := Option.bind_eq_some_iff.mp h
  have htable := ofTable_eq_some hof
  have hinsert := Table.get_of_insert ht
  refine ⟨hinsert.1, fun k => ?_⟩
  rw [get, htable]
  exact hinsert.2 k

theorem get_of_update {f : KnowledgeFile ι → KnowledgeFile ι} (h : files.update id f = some files')
    (k : ι) :
    files'.get k = if k = id then (files.get k).map f else files.get k := by
  have htable := ofTable_eq_some h
  rw [get, htable, Table.get_modify]
  rfl

theorem get_delete (files : KnowledgeFiles ι) (id k : ι) :
    (files.delete id).get k = if k = id then none else (files.get k).map (clearParent id) := by
  rw [get, delete, Table.get_mapRows, Table.get_erase]
  split <;> rfl

theorem parentId_ne_of_get_eq_none {k : ι} (hfresh : files.get id = none)
    (hget : files.get k = some row) :
    row.parentId ≠ some id := by
  intro hparent
  have hsome := files.parentExists k row id hget hparent
  rw [show files.table.get id = none from hfresh] at hsome
  simp at hsome

end KnowledgeFiles

/-! ## Logical paths -/

section Paths

variable {ι : Type} [DecidableEq ι]

/-- The text in front of the names of the rows below a parent: the names of the folders above,
each followed by a slash.  There is none where the parents run in a circle. -/
inductive AncestorText (files : KnowledgeFiles ι) : Option ι → List Char → Prop
  | root : AncestorText files none []
  | under {parent : ι} {row : KnowledgeFile ι} {text : List Char} :
      files.get parent = some row → AncestorText files row.parentId text →
      AncestorText files (some parent) (text ++ row.filename ++ ['/'])

/-- The names of the ancestors of a row and its own name, joined with slashes. -/
def LogicalPath (files : KnowledgeFiles ι) (id : ι) (path : List Char) : Prop :=
  ∃ row text, files.get id = some row ∧ AncestorText files row.parentId text ∧
    path = text ++ row.filename

variable {files : KnowledgeFiles ι}

theorem ancestorText_some_iff {parent : ι} {text : List Char} :
    AncestorText files (some parent) text ↔
      ∃ row above, files.get parent = some row ∧ AncestorText files row.parentId above ∧
        text = above ++ row.filename ++ ['/'] := by
  constructor
  · intro h
    cases h with
    | under hget habove => exact ⟨_, _, hget, habove, rfl⟩
  · rintro ⟨row, above, hget, habove, rfl⟩
    exact AncestorText.under hget habove

variable {files' : KnowledgeFiles ι} {id : ι} {row : KnowledgeFile ι}

/-- A new row is above nobody, so what is above the others stays. -/
theorem ancestorText_of_insert (h : files.insert id row = some files') {parent : Option ι}
    (hparent : parent ≠ some id)
    (text : List Char) : AncestorText files' parent text ↔ AncestorText files parent text := by
  obtain ⟨hfresh, hget'⟩ := KnowledgeFiles.get_of_insert h
  constructor
  · intro htext
    induction htext with
    | root => exact AncestorText.root
    | @under p r above hget _ ih =>
      have hne : p ≠ id := fun heq => hparent (congrArg some heq)
      rw [hget', if_neg hne] at hget
      exact AncestorText.under hget (ih (KnowledgeFiles.parentId_ne_of_get_eq_none hfresh hget))
  · intro htext
    induction htext with
    | root => exact AncestorText.root
    | @under p r above hget _ ih =>
      have hne : p ≠ id := fun heq => hparent (congrArg some heq)
      have hnew : files'.get p = some r := by rw [hget', if_neg hne, hget]
      exact AncestorText.under hnew (ih (KnowledgeFiles.parentId_ne_of_get_eq_none hfresh hget))

/-- A row with a name of several segments moves into the folder beside it that carries the first
one. -/
structure Peels (files files' : KnowledgeFiles ι) (id folder : ι) : Prop where
  ne : id ≠ folder
  exists_rows : ∃ row frow rest, files.get id = some row ∧ files.get folder = some frow ∧
    frow.parentId = row.parentId ∧ row.filename = frow.filename ++ '/' :: rest ∧
    ∀ k, files'.get k =
      if k = id then some { row with parentId := some folder, filename := rest } else files.get k

variable {folder : ι}

/-- Moving the first segment of a name into a folder of that name leaves every path as it is. -/
theorem ancestorText_of_peel (h : Peels files files' id folder) (parent : Option ι)
    (text : List Char) :
    AncestorText files' parent text ↔ AncestorText files parent text := by
  obtain ⟨row, frow, rest, hrow, hfolder, hparents, hname, hget'⟩ := h.exists_rows
  have hfolder' : files'.get folder = some frow := by
    rw [hget', if_neg h.ne.symm, hfolder]
  constructor
  · intro htext
    induction htext with
    | root => exact AncestorText.root
    | @under p r above hget _ ih =>
      rw [hget'] at hget
      split at hget
      · next hp =>
        cases hget
        obtain ⟨frow₀, above₀, hget₀, habove₀, rfl⟩ := ancestorText_some_iff.mp ih
        rw [hfolder] at hget₀
        cases hget₀
        have hbelow := AncestorText.under hrow (hparents ▸ habove₀)
        rw [hp]
        simpa [hname] using hbelow
      · exact AncestorText.under hget ih
  · intro htext
    induction htext with
    | root => exact AncestorText.root
    | @under p r above hget _ ih =>
      by_cases hp : p = id
      · rw [hp, hrow] at hget
        cases hget
        have hfolderText := AncestorText.under hfolder' (hparents ▸ ih)
        have hmoved : files'.get p =
            some { row with parentId := some folder, filename := rest } := by
          rw [hget', if_pos hp]
        have hbelow := AncestorText.under hmoved hfolderText
        simpa [hname] using hbelow
      · have hkept : files'.get p = some r := by rw [hget', if_neg hp, hget]
        exact AncestorText.under hkept ih

theorem logicalPath_of_insert (h : files.insert id row = some files') {k : ι}
    (hk : (files.get k).isSome)
    (path : List Char) : LogicalPath files' k path ↔ LogicalPath files k path := by
  obtain ⟨hfresh, hget'⟩ := KnowledgeFiles.get_of_insert h
  have hne : k ≠ id := by
    intro heq
    rw [heq, hfresh] at hk
    simp at hk
  have hsame : files'.get k = files.get k := by rw [hget', if_neg hne]
  unfold LogicalPath
  rw [hsame]
  constructor
  · rintro ⟨r, text, hget, htext, rfl⟩
    have hparent := KnowledgeFiles.parentId_ne_of_get_eq_none hfresh hget
    exact ⟨r, text, hget, (ancestorText_of_insert h hparent text).mp htext, rfl⟩
  · rintro ⟨r, text, hget, htext, rfl⟩
    have hparent := KnowledgeFiles.parentId_ne_of_get_eq_none hfresh hget
    exact ⟨r, text, hget, (ancestorText_of_insert h hparent text).mpr htext, rfl⟩

theorem logicalPath_of_peel (h : Peels files files' id folder) (k : ι) (path : List Char) :
    LogicalPath files' k path ↔ LogicalPath files k path := by
  have habove := ancestorText_of_peel h
  obtain ⟨row, frow, rest, hrow, hfolder, hparents, hname, hget'⟩ := h.exists_rows
  unfold LogicalPath
  by_cases hk : k = id
  · rw [hget', if_pos hk, hk, hrow]
    constructor
    · rintro ⟨r, text, hget, htext, rfl⟩
      cases hget
      obtain ⟨frow₀, above, hget₀, hprev, rfl⟩ :=
        ancestorText_some_iff.mp ((habove (some folder) text).mp htext)
      rw [hfolder] at hget₀
      cases hget₀
      exact ⟨row, above, rfl, hparents ▸ hprev, by simp [hname]⟩
    · rintro ⟨r, text, hget, htext, rfl⟩
      cases hget
      have hbelow := AncestorText.under hfolder (hparents ▸ htext)
      exact ⟨_, _, rfl, (habove (some folder) _).mpr hbelow, by simp [hname]⟩
  · rw [hget', if_neg hk]
    simp only [habove]

end Paths

end Yuanlei
