import Yuanlei.Workspace.Addressing

/-!
# Names of archived blueprints

A blueprint is archived under its stem, the time and a random id.  The pattern that reads the
name gives as much as it can to the stem, but the rest has one length, so dashes, dots and digits
stay in the stem.

Main results:

- `archiveMatch_append`: how the pattern cuts a name.
- `archive_readable`: an archived blueprint is listed and read under its own name and time.
-/

namespace Yuanlei.ProjectBlueprint

open PosixPath

open PyText (isSpace stripChars)

open FileTree

open FileTree.FsM (raise lift)

open Workspace Workdir

/-! ## Names -/

/-- A character that a path keeps as it is. -/
def ordinary (c : Char) : Bool :=
  c != '/' && c != '\\' && !isSpace c

/-- The characters of `\w` and `\d`, and those that `str.lower` keeps. -/
structure CharRules where
  isWord : Char → Bool
  isDigit : Char → Bool
  isLowered : Char → Bool
  word_ordinary : ∀ c, isWord c → ordinary c
  digit_word : ∀ c, isDigit c → isWord c
  ascii_digit : ∀ c, c.isDigit → isDigit c

def maxBlueprintNameLength : Nat := 120

def maxBlueprintStemBytes : Nat := 194

def maxBlueprintBytes : Int := 256 * 1024

/-- The length in UTF-8. -/
def utf8Length (s : Text) : Nat :=
  (s.map Char.utf8Size).sum

def markdownSuffix : Text := ".md".toList

variable (R : CharRules)

/-- `[^\W_][\w.-]*`. -/
def matchesStem : Text → Bool
  | [] => false
  | c :: cs => R.isWord c && c != '_' && cs.all fun c => R.isWord c || c == '.' || c == '-'

/-- `name[:-3]`. -/
def stemOf (name : Text) : Text :=
  name.take (name.length - 3)

/-- `_BLUEPRINT_NAME_PATTERN`. -/
def matchesBlueprint (name : Text) : Bool :=
  matchesStem R (stemOf name) && name.drop (name.length - 3) == markdownSuffix

def validateBlueprintName (name : Text) : Except String Text :=
  let normalized := stripChars name
  if maxBlueprintNameLength < normalized.length ∨
      maxBlueprintStemBytes < utf8Length (stemOf normalized) ∨
      ¬ normalized.all R.isLowered ∨ ¬ matchesBlueprint R normalized then
    .error "蓝图文档名须为不超过 120 字的中文或小写 .md 文件名"
  else .ok normalized

/-- A part of a pattern that takes one character. -/
inductive CharClass where
  | digit
  | hex
  | lit (c : Char)

def CharClass.has (digit : Char → Bool) : CharClass → Char → Bool
  | .digit, c => digit c
  | .hex, c => c ∈ "0123456789abcdef".toList
  | .lit x, c => c == x

/-- The text has one character of each class. -/
def Fits (digit : Char → Bool) (ps : List CharClass) (s : Text) : Prop :=
  List.Forall₂ (fun p c => p.has digit c) ps s

instance (digit : Char → Bool) (ps : List CharClass) (s : Text) : Decidable (Fits digit ps s) :=
  inferInstanceAs (Decidable (List.Forall₂ _ ps s))

def exactly (s : Text) : List CharClass :=
  s.map .lit

/-- `\d{8}T\d{12}Z`. -/
def stampClasses : List CharClass :=
  List.replicate 8 .digit ++ exactly ['T'] ++ List.replicate 12 .digit ++ exactly ['Z']

/-- `[0-9a-f]{32}`. -/
def idClasses : List CharClass :=
  List.replicate 32 .hex

/-- `_ARCHIVE_NAME_PATTERN` behind the stem. -/
def tailClasses : List CharClass :=
  exactly ['-', '-'] ++ (stampClasses ++ (exactly ['-', '-'] ++ (idClasses ++
    exactly markdownSuffix)))

/-- `_ARCHIVE_NAME_PATTERN`: the groups `stem` and `archived_at`, with the longest stem first. -/
def archiveMatch (s : Text) : Option (Text × Text) :=
  (List.range (s.length + 1)).reverse.findSome? fun n =>
    if matchesStem R (s.take n) ∧ Fits R.isDigit tailClasses (s.drop n) then
      some (s.take n, ((s.drop n).drop 2).take 22)
    else none

/-- The limits that both views check. -/
def withinLimits (stem : Text) : Bool :=
  stem.length + 3 ≤ maxBlueprintNameLength && utf8Length stem ≤ maxBlueprintStemBytes &&
    stem.all R.isLowered

/-- The match that a view accepts. -/
def archiveOf (s : Text) : Option (Text × Text) :=
  (archiveMatch R s).filter fun m => withinLimits R m.1

/-- What `archive_project_blueprint_view` puts behind the stem. -/
def archiveTail (archivedAt id : Text) : Text :=
  ['-', '-'] ++ (archivedAt ++ (['-', '-'] ++ (id ++ markdownSuffix)))

def archiveName (normalizedName archivedAt id : Text) : Text :=
  stemOf normalizedName ++ archiveTail archivedAt id

/-! ## Views -/

/-- The components of `ARCHIVE_DIRECTORY`. -/
def archiveDirectory : List Name :=
  [".yuanlei".toList, "blueprint".toList, "archive".toList]

structure Document where
  archiveName : Text
  name : Text
  archivedAt : Text
  size : Nat
  content : Option Text

/-- The document of an entry of the archive directory, unless it is skipped. -/
def documentOf (entry : Entry) : Option Document :=
  if entry.metadata.isDir then none
  else (archiveOf R entry.name).map fun m =>
    ⟨entry.name, m.1 ++ markdownSuffix, m.2, entry.metadata.size, none⟩

/-- The documents of `list_project_blueprint_archives_view`, the latest first. -/
def listArchives (entries : List Entry) : List Document :=
  (entries.filterMap (documentOf R)).mergeSort fun a b =>
    decide (b.archivedAt < a.archivedAt ∨
      b.archivedAt = a.archivedAt ∧ b.archiveName ≤ a.archiveName)

variable (decode : List UInt8 → Except WorkspaceError Text)

/-- `get_project_blueprint_archive_view` with `_read_blueprint_file`. -/
def getArchive (w : Workdir) (name : Text) : Fs Document :=
  match archiveOf R name with
  | none => raise (.app (.value "无效的蓝图归档名称"))
  | some (stem, archivedAt) => do
    let path := '/' :: join (archiveDirectory ++ [name])
    let payload ← w.readFile path maxBlueprintBytes
    let content ← lift (decode payload)
    let metadata ← w.stat path
    pure ⟨name, stem ++ markdownSuffix, archivedAt, metadata.size, some content⟩

/-- The same document, read at components. -/
def readDocument (parts : List Name) (archiveName name archivedAt : Text) : Fs Document := do
  let payload ← readAt parts maxBlueprintBytes
  let content ← lift (decode payload)
  let metadata ← statAt parts
  pure ⟨archiveName, name, archivedAt, metadata.size, some content⟩

/-! ## Reading names -/

variable {R} {digit : Char → Bool} {q : Char → Prop} {ps : List CharClass}

variable {stem s t archivedAt id name normalized : Text}

theorem Fits.exactly (s : Text) : Fits digit (exactly s) s :=
  List.forall₂_map_left_iff.mpr (List.forall₂_same.mpr fun _ _ => by simp [CharClass.has])

theorem Fits.of_ascii (h : Fits Char.isDigit ps s) : Fits R.isDigit ps s := by
  apply List.Forall₂.imp _ h
  intro p c hc
  cases p with
  | digit => exact R.ascii_digit c hc
  | hex => exact hc
  | lit x => exact hc

/-- What holds of the characters of the classes holds of the text. -/
theorem Fits.forall (h : Fits digit ps t) (hps : ∀ p ∈ ps, ∀ c, p.has digit c → q c) :
    ∀ c ∈ t, q c := by
  induction h with
  | nil => simp
  | @cons p c ps t hc _ ih =>
    rw [List.forall_mem_cons]
    exact ⟨hps p (by simp) c hc, ih fun p' hp' => hps p' (by simp [hp'])⟩

theorem Fits.forall_tail (h : Fits digit tailClasses t) (hdigit : ∀ c, digit c → q c)
    (hq : ∀ c ∈ "0123456789abcdef".toList ++ "TZ-.m".toList, q c) : ∀ c ∈ t, q c := by
  refine Fits.forall h ?_
  intro p hp c hc
  cases p with
  | digit => exact hdigit c hc
  | hex => exact hq c (List.mem_append_left _ (by simpa [CharClass.has] using hc))
  | lit x =>
    simp only [CharClass.has, beq_iff_eq] at hc
    subst hc
    apply hq
    simp [tailClasses, stampClasses, idClasses, ProjectBlueprint.exactly, markdownSuffix] at hp ⊢
    tauto

theorem fits_archiveTail (hstamp : Fits digit stampClasses archivedAt)
    (hid : Fits digit idClasses id) : Fits digit tailClasses (archiveTail archivedAt id) :=
  List.rel_append (Fits.exactly _) (List.rel_append hstamp
    (List.rel_append (Fits.exactly _) (List.rel_append hid (Fits.exactly _))))

/-- What the pattern has read. -/
theorem archiveMatch_eq_some {m : Text × Text} (h : archiveMatch R s = some m) :
    ∃ t, s = m.1 ++ t ∧ matchesStem R m.1 ∧ Fits R.isDigit tailClasses t ∧
      m.2 = (t.drop 2).take 22 := by
  obtain ⟨n, -, hn⟩ := List.exists_of_findSome?_eq_some h
  split_ifs at hn with hmatch
  cases hn
  exact ⟨s.drop n, (List.take_append_drop n s).symm, hmatch.1, hmatch.2, rfl⟩

/-- Only one place leaves as many characters as the tail has. -/
theorem archiveMatch_append (hstem : matchesStem R stem) (ht : Fits R.isDigit tailClasses t) :
    archiveMatch R (stem ++ t) = some (stem, (t.drop 2).take 22) := by
  have hsome : (archiveMatch R (stem ++ t)).isSome := by
    rw [archiveMatch, List.findSome?_isSome_iff]
    refine ⟨stem.length, ?_, ?_⟩
    · simp only [List.mem_reverse, List.mem_range, List.length_append]
      omega
    · simp [hstem, ht]
  obtain ⟨⟨stem', archivedAt⟩, hm⟩ := Option.isSome_iff_exists.mp hsome
  obtain ⟨t', heq, -, ht', hstamp⟩ := archiveMatch_eq_some hm
  have hlength : t.length = t'.length := by rw [← ht.length_eq, ← ht'.length_eq]
  obtain ⟨rfl, rfl⟩ := List.append_inj' heq hlength
  rw [hm, ← hstamp]

/-! ## Archived names -/

/-- A time stamp as `strftime` writes it, and a hexadecimal id. -/
structure Written (archivedAt id : Text) : Prop where
  stamp : Fits Char.isDigit stampClasses archivedAt
  id : Fits Char.isDigit idClasses id

theorem utf8Length_append (s t : Text) : utf8Length (s ++ t) = utf8Length s + utf8Length t := by
  simp [utf8Length]

theorem validateBlueprintName_eq_ok (h : validateBlueprintName R name = .ok normalized) :
    normalized = stemOf normalized ++ markdownSuffix ∧ matchesStem R (stemOf normalized) ∧
      withinLimits R (stemOf normalized) := by
  unfold validateBlueprintName at h
  simp only at h
  split_ifs at h with hreject
  injection h with h
  subst h
  push Not at hreject
  obtain ⟨hchars, hbytes, hlower, hmatch⟩ := hreject
  simp only [matchesBlueprint, Bool.and_eq_true, beq_iff_eq] at hmatch
  have hlength := congrArg List.length hmatch.2
  simp only [markdownSuffix, List.length_drop] at hlength
  refine ⟨?_, hmatch.1, ?_⟩
  · conv_lhs => rw [← List.take_append_drop ((stripChars name).length - 3) (stripChars name)]
    rw [hmatch.2]
    rfl
  · simp only [withinLimits, Bool.and_eq_true, decide_eq_true_eq]
    refine ⟨⟨?_, hbytes⟩, ?_⟩
    · simp only [stemOf, List.length_take]
      simp at hlength
      omega
    · rw [List.all_eq_true] at hlower ⊢
      exact fun c hc => hlower c (List.mem_of_mem_take hc)

section Archived

variable (hname : validateBlueprintName R name = .ok normalized) (hw : Written archivedAt id)
include hname hw

theorem archiveOf_archiveName :
    archiveOf R (archiveName normalized archivedAt id) = some (stemOf normalized, archivedAt) := by
  obtain ⟨-, hstem, hlimits⟩ := validateBlueprintName_eq_ok hname
  have htail := fits_archiveTail (hw.stamp.of_ascii (R := R)) hw.id.of_ascii
  have hlength : archivedAt.length = 22 := hw.stamp.length_eq.symm
  have hstamp : ((archiveTail archivedAt id).drop 2).take 22 = archivedAt := by
    simp [archiveTail, ← hlength]
  rw [archiveOf, archiveName, archiveMatch_append hstem htail, hstamp]
  simp [hlimits]

theorem utf8Length_archiveName : utf8Length (archiveName normalized archivedAt id) ≤ 255 := by
  obtain ⟨-, -, hlimits⟩ := validateBlueprintName_eq_ok hname
  have htail := fits_archiveTail hw.stamp hw.id
  have hones : ∀ c ∈ archiveTail archivedAt id, c.utf8Size = 1 := by
    refine htail.forall_tail ?_ (by decide)
    intro c hc
    simp only [Char.isDigit, Bool.and_eq_true, decide_eq_true_eq] at hc
    have hle : c.val ≤ 0x7F := UInt32.le_trans hc.2 (by decide)
    simp [Char.utf8Size, hle]
  have hlength : (archiveTail archivedAt id).length = 61 := htail.length_eq.symm
  have hsum : utf8Length (archiveTail archivedAt id) = 61 := by
    simp [utf8Length, List.map_congr_left hones, hlength]
  simp only [withinLimits, Bool.and_eq_true, decide_eq_true_eq] at hlimits
  have hbytes : utf8Length (stemOf normalized) ≤ 194 := hlimits.1.2
  rw [archiveName, utf8Length_append, hsum]
  omega

/-- The names, the time stamps and the ids are told apart. -/
theorem archiveName_inj {name' normalized' archivedAt' id' : Text}
    (hname' : validateBlueprintName R name' = .ok normalized') (hw' : Written archivedAt' id')
    (heq : archiveName normalized archivedAt id = archiveName normalized' archivedAt' id') :
    normalized = normalized' ∧ archivedAt = archivedAt' ∧ id = id' := by
  have hread := archiveOf_archiveName hname' hw'
  rw [← heq, archiveOf_archiveName hname hw] at hread
  obtain ⟨hstem, rfl⟩ := Prod.mk.inj (Option.some.inj hread)
  refine ⟨?_, rfl, ?_⟩
  · rw [(validateBlueprintName_eq_ok hname).1, hstem, ← (validateBlueprintName_eq_ok hname').1]
  · simpa [archiveName, archiveTail, hstem] using heq

end Archived

/-! ## Views on archived names -/

theorem ordinary_of_matchesStem (h : matchesStem R stem) : ∀ c ∈ stem, ordinary c := by
  cases stem with
  | nil => cases h
  | cons c cs =>
    simp only [matchesStem, Bool.and_eq_true, List.all_eq_true] at h
    rw [List.forall_mem_cons]
    refine ⟨R.word_ordinary c h.1.1, ?_⟩
    intro d hd
    have hclass := h.2 d hd
    simp only [Bool.or_eq_true, beq_iff_eq] at hclass
    rcases hclass with (hword | rfl) | rfl
    · exact R.word_ordinary d hword
    · rfl
    · rfl

/-- A name that a view accepts is read at its own place. -/
theorem getArchive_eq (decode : List UInt8 → Except WorkspaceError Text) (w : Workdir)
    (h : archiveOf R s = some (stem, archivedAt)) :
    getArchive R decode w s = readDocument decode (w.parts ++ (archiveDirectory ++ [s])) s
      (stem ++ markdownSuffix) archivedAt := by
  obtain ⟨t, heq, hstem, htail, -⟩ := archiveMatch_eq_some (Option.filter_eq_some_iff.mp h).1
  have hordinary : ∀ c ∈ s, ordinary c := by
    rw [heq, List.forall_mem_append]
    exact ⟨ordinary_of_matchesStem hstem, htail.forall_tail
      (fun c hc => R.word_ordinary c (R.digit_word c hc)) (by decide)⟩
  have hlong : ∀ t : Text, t.length < 61 → s ≠ t := by
    rintro _ hlt rfl
    have hlength : 61 = t.length := htail.length_eq
    rw [heq, List.length_append] at hlt
    omega
  have hplain : ∀ c ∈ archiveDirectory ++ [s], Plain c := by
    rw [List.forall_mem_append, List.forall_mem_singleton]
    refine ⟨by unfold Plain IsComponent; decide, ⟨?_, hlong _ (by decide), hlong _ (by decide)⟩,
      hlong _ (by decide), ?_⟩
    · exact fun hmem => absurd (hordinary _ hmem) (by decide)
    · exact fun hmem => absurd (hordinary _ hmem) (by decide)
  have hclean : ¬ EndsInSpace ((archiveDirectory ++ [s]).getLast (by simp)) := by
    rw [List.getLast_append_singleton, EndsInSpace, not_not, rstrip, List.rdropWhile_eq_self_iff]
    intro hne
    have hlast := hordinary _ (List.getLast_mem hne)
    simp only [ordinary, Bool.and_eq_true, Bool.not_eq_true'] at hlast
    simp [hlast.2]
  have hlocate := w.locate_slash_join (by simp) hplain hclean
  unfold getArchive readDocument
  rw [h]
  generalize '/' :: join (archiveDirectory ++ [s]) = path at hlocate
  have hread : w.readFile path maxBlueprintBytes =
      readAt (w.parts ++ (archiveDirectory ++ [s])) maxBlueprintBytes := by
    have hunchecked := w.locate_bind_unchecked path fun parts => readAt parts maxBlueprintBytes
    rw [hlocate true, FsM.lift_ok, FsM.pure_bind] at hunchecked
    rw [← hunchecked]
    rfl
  have hstat : w.stat path = statAt (w.parts ++ (archiveDirectory ++ [s])) := by
    rw [Workdir.stat_eq, hlocate true]
    rfl
  simp only [hread, hstat]

theorem mem_listArchives {entries : List Entry} {document : Document} :
    document ∈ listArchives R entries ↔ ∃ entry ∈ entries, documentOf R entry = some document := by
  simp [listArchives]

variable (R)

/-- What is archived is listed and read under its own name and time, and whatever is listed is
read at its place in the archive directory. -/
theorem archive_readable :
    (∀ name normalized archivedAt id, validateBlueprintName R name = .ok normalized →
      Written archivedAt id →
      let archived := archiveName normalized archivedAt id
      utf8Length archived ≤ 255 ∧
      (∀ entries, ∀ entry ∈ entries, entry.name = archived → entry.metadata.isDir = false →
        ⟨archived, normalized, archivedAt, entry.metadata.size, none⟩ ∈ listArchives R entries) ∧
      (∀ decode w, getArchive R decode w archived = readDocument decode
        (w.parts ++ (archiveDirectory ++ [archived])) archived normalized archivedAt) ∧
      ∀ name' normalized' archivedAt' id', validateBlueprintName R name' = .ok normalized' →
        Written archivedAt' id' → archived = archiveName normalized' archivedAt' id' →
        normalized = normalized' ∧ archivedAt = archivedAt' ∧ id = id') ∧
    ∀ entries, ∀ document ∈ listArchives R entries,
      (∃ entry ∈ entries, entry.name = document.archiveName ∧ entry.metadata.isDir = false) ∧
      ∀ decode w, getArchive R decode w document.archiveName = readDocument decode
        (w.parts ++ (archiveDirectory ++ [document.archiveName])) document.archiveName
        document.name document.archivedAt := by
  constructor
  · intro name normalized archivedAt id hname hw archived
    have hmatch := archiveOf_archiveName hname hw
    have hnormalized := (validateBlueprintName_eq_ok hname).1
    refine ⟨utf8Length_archiveName hname hw, ?_, ?_, ?_⟩
    · intro entries entry hmem hentry hfile
      refine mem_listArchives.mpr ⟨entry, hmem, ?_⟩
      simp only [documentOf, hfile, hentry, archived, hmatch, ← hnormalized, Option.map_some,
        Bool.false_eq_true, if_false]
    · intro decode w
      rw [getArchive_eq decode w hmatch, ← hnormalized]
    · exact fun _ _ _ _ hname' hw' => archiveName_inj hname hw hname' hw'
  · intro entries document hdocument
    obtain ⟨entry, hmem, hentry⟩ := mem_listArchives.mp hdocument
    unfold documentOf at hentry
    split_ifs at hentry with hdir
    obtain ⟨⟨stem, archivedAt⟩, hmatch, rfl⟩ := Option.map_eq_some_iff.mp hentry
    exact ⟨⟨entry, hmem, rfl, by simpa using hdir⟩, fun decode w => getArchive_eq decode w hmatch⟩

/-- The rules on ASCII. -/
def asciiRules : CharRules where
  isWord c := c.isAlphanum || c == '_'
  isDigit := Char.isDigit
  isLowered c := !c.isUpper
  word_ordinary := by
    intro c hc
    have hrange : 48 ≤ c.toNat ∧ c.toNat ≤ 122 := by
      delta Char.isAlphanum Char.isAlpha Char.isUpper Char.isLower Char.isDigit at hc
      simp only [UInt32.le_iff_toNat_le, Bool.or_eq_true, Bool.and_eq_true, decide_eq_true_eq,
        beq_iff_eq] at hc
      rcases hc with hc | rfl
      · have hval : c.toNat = c.val.toNat := rfl
        simp at hc
        omega
      · decide
    have hspace : isSpace c = false := by
      simp only [isSpace, Bool.or_eq_false_iff, Bool.and_eq_false_iff, decide_eq_false_iff_not,
        beq_eq_false_iff_ne]
      omega
    have hslash : c ≠ '/' := by
      rintro rfl
      cases hc
    have hbackslash : c ≠ '\\' := by
      rintro rfl
      cases hc
    simp [ordinary, hspace, hslash, hbackslash]
  digit_word := by
    intro c hc
    simp [Char.isAlphanum, hc]
  ascii_digit := fun _ h => h

/-- A stem with the dashes of the separator. -/
theorem archive_readable_dashes :
    let archived := archiveName "plan--1.md".toList "20260101T000000000000Z".toList
      (List.replicate 32 'a')
    ∀ decode w, getArchive asciiRules decode w archived = readDocument decode
      (w.parts ++ (archiveDirectory ++ [archived])) archived "plan--1.md".toList
      "20260101T000000000000Z".toList :=
  ((archive_readable asciiRules).1 "plan--1.md".toList _ _ _ (by rfl)
    ⟨by decide, by decide⟩).2.2.1

end Yuanlei.ProjectBlueprint
