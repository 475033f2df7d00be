import Yuanlei.Lib.PosixPath
import Mathlib.Data.List.Infix

/-!
# Paths of a Workdir

`normalize_workdir_path`, `Workdir.resolve_path` and the two readings that `Workspace` makes
of the path it is given: `_require_within` normalises it and compares texts, `_resolve_path`
strips it once more and takes its components.

Main results:

- `Workdir`: a root that `normalize_workdir_path` has accepted.
- `resolvePath_resolved`: the components that are opened for it.
-/

namespace Yuanlei

open PosixPath

open PyText (isSpace stripChars)

/-- The exceptions of the file access boundary, with their texts. -/
inductive WorkspaceError where
  | value (message : String)
  | permission (message : String)
  | isADirectory
  | containsSymlink (message : String)
  | transferLimit (message : String)
deriving DecidableEq

/-! ## The root -/

/-- `a or b` on texts. -/
def orText (a b : Text) : Text :=
  if a = [] then b else a

def normalizeWorkdirPath (workdirPath : Text) : Except WorkspaceError Text :=
  let raw := stripChars workdirPath
  if raw = [] ∨ isAbsolute raw ∨ '\\' ∈ raw ∨ "://".toList <:+: raw then
    .error (.value "workdir_path must be a relative POSIX path")
  else if (raw.splitOn '/').any (· ∈ ["".toList, ".".toList, "..".toList]) then
    .error (.value "workdir_path contains invalid path components")
  else .ok (asPosix raw)

/-- A Workdir: `__post_init__` normalises the path that it was given. -/
structure Workdir where
  workdirPath : Text
  relativePath : Text
  normalized : normalizeWorkdirPath workdirPath = .ok relativePath

namespace Workdir

variable (w : Workdir)

def rootPath : Text :=
  '/' :: w.relativePath

/-- The text that `resolve_path` reads; a path of `None` is read as the empty text. -/
def scopeText (path : Text) : Text :=
  orText (stripChars (orText path ['/'])) ['/']

/-- The paths that `resolve_path` rejects. -/
def rejects (path : Text) : Bool :=
  let raw := scopeText path
  !isAbsolute raw || "..".toList ∈ components raw || '\\' ∈ raw || "://".toList <:+: raw

def resolvePath (path : Text) : Except WorkspaceError Text :=
  if rejects path then .error (.value "invalid Workdir scope path")
  else
    let normalized := asPosix (scopeText path)
    if normalized = ['/'] then .ok w.rootPath else .ok (w.rootPath ++ normalized)

/-- The components of the root. -/
def parts : List Text :=
  components w.relativePath

end Workdir

/-! ## The two readings of a path -/

namespace Workspace

/-- `Workspace._resolve_path`: the components that are opened. -/
def resolvePath (path : Text) : Except WorkspaceError (List Text) :=
  let raw := stripChars path
  if raw = [] ∨ !isAbsolute raw ∨ "..".toList ∈ components raw ∨ '\\' ∈ raw then
    .error (.value "invalid Workspace path")
  else .ok (components raw)

/-- `str.rstrip` of slashes. -/
def rstripSlashes (s : Text) : Text :=
  s.rdropWhile (· == '/')

def requireWithin (path root : Text) (allowRoot : Bool) : Except WorkspaceError Unit :=
  let normalizedPath := asPosix path
  let normalizedRoot := asPosix root
  if normalizedPath = normalizedRoot then
    if allowRoot then .ok () else .error (.value "operation cannot target the Workdir root")
  else if normalizedRoot = ['/'] then
    if ['/'] <+: normalizedPath then .ok () else .error (.value "path is outside the Workdir")
  else if rstripSlashes normalizedRoot ++ ['/'] <+: normalizedPath then .ok ()
  else .error (.value "path is outside the Workdir")

end Workspace

/-! ## Roots are clean -/

/-- Every piece of a text without empty pieces and dots counts. -/
theorem components_eq_splitOn {s : Text}
    (h : ∀ part ∈ s.splitOn '/', part ∉ ["".toList, ".".toList, "..".toList]) :
    components s = s.splitOn '/' := by
  apply List.filter_eq_self.mpr
  intro part hpart
  have hclean := h part hpart
  rw [counts_iff]
  constructor
  · rintro rfl
    exact hclean (by decide)
  · rintro rfl
    exact hclean (by decide)

namespace Workdir

variable (w : Workdir)

theorem relativePath_eq : w.relativePath = stripChars w.workdirPath ∧ w.relativePath ≠ [] ∧
    isAbsolute w.relativePath = false ∧ '\\' ∉ w.relativePath ∧
    ∀ part ∈ w.relativePath.splitOn '/', part ∉ ["".toList, ".".toList, "..".toList] := by
  have h := w.normalized
  unfold normalizeWorkdirPath at h
  simp only at h
  split_ifs at h with hraw hparts
  push Not at hraw hparts
  obtain ⟨hne, habsolute, hbackslash, -⟩ := hraw
  have hparts' : ∀ part ∈ (stripChars w.workdirPath).splitOn '/',
      part ∉ ["".toList, ".".toList, "..".toList] := by
    simpa using hparts
  have hroot : rootOf (stripChars w.workdirPath) = [] := by
    simpa [isAbsolute] using habsolute
  -- Nothing is dropped, so the normal form is the text itself.
  have hsame : asPosix (stripChars w.workdirPath) = stripChars w.workdirPath := by
    unfold asPosix
    rw [components_eq_splitOn hparts', hroot]
    simp [List.splitOn_ne_nil, join, List.intercalate_splitOn]
  rw [hsame, Except.ok.injEq] at h
  rw [← h]
  exact ⟨rfl, hne, by simpa using habsolute, hbackslash, hparts'⟩

theorem parts_eq : w.parts = w.relativePath.splitOn '/' := by
  obtain ⟨-, -, -, -, hparts⟩ := w.relativePath_eq
  exact components_eq_splitOn hparts

theorem parts_ne_nil : w.parts ≠ [] := by
  rw [parts_eq]
  exact List.splitOn_ne_nil _ _

theorem join_parts : join w.parts = w.relativePath := by
  rw [parts_eq, join, List.intercalate_splitOn]

theorem dotdot_not_mem_parts : "..".toList ∉ w.parts := by
  obtain ⟨-, -, -, -, hparts⟩ := w.relativePath_eq
  rw [parts_eq]
  intro hmem
  exact hparts _ hmem (by decide)

/-- The root starts with another character than a slash. -/
theorem exists_head : ∃ c t, w.relativePath = c :: t ∧ c ≠ '/' := by
  obtain ⟨-, hne, habsolute, -, -⟩ := w.relativePath_eq
  obtain ⟨c, t, hcons⟩ := List.exists_cons_of_ne_nil hne
  refine ⟨c, t, hcons, ?_⟩
  rintro rfl
  rw [hcons] at habsolute
  have htrue := isAbsolute_iff.mpr ⟨t, rfl⟩
  rw [htrue] at habsolute
  cases habsolute

theorem rstrip_relativePath : rstrip w.relativePath = w.relativePath := by
  obtain ⟨heq, -, -, -, -⟩ := w.relativePath_eq
  rw [heq]
  exact List.rdropWhile_idempotent isSpace _

/-! ## What a resolved path reads as -/

/-- The components that a path names below the root. -/
def scopeParts (path : Text) : List Text :=
  components (scopeText path)

theorem rootOf_rootPath_append (t : Text) : rootOf (w.rootPath ++ t) = ['/'] := by
  obtain ⟨c, u, hcons, hc⟩ := w.exists_head
  rw [rootPath, hcons]
  exact rootOf_single hc (u ++ t)

theorem isAbsolute_rootPath_append (t : Text) : isAbsolute (w.rootPath ++ t) :=
  isAbsolute_iff.mpr ⟨w.relativePath ++ t, rfl⟩

variable {path resolved : Text}

section

variable (h : w.resolvePath path = .ok resolved)
include h

theorem resolvePath_eq_ok :
    rejects path = false ∧ isAbsolute (scopeText path) ∧
      "..".toList ∉ scopeParts path ∧ '\\' ∉ scopeText path ∧
      ∃ suffix, resolved = w.rootPath ++ suffix ∧ (suffix = [] ∧ scopeParts path = [] ∨
          suffix = rootOf (scopeText path) ++ join (scopeParts path)) := by
  unfold resolvePath at h
  split_ifs at h with hrejects
  simp only at h
  have haccepts : rejects path = false := by simpa using hrejects
  have hchecks := haccepts
  simp only [rejects, Bool.or_eq_false_iff, Bool.not_eq_false', decide_eq_false_iff_not] at hchecks
  obtain ⟨⟨⟨habsolute, hdots⟩, hbackslash⟩, -⟩ := hchecks
  refine ⟨haccepts, habsolute, hdots, hbackslash, ?_⟩
  have hposix := asPosix_of_absolute habsolute
  split_ifs at h with hroot
  · refine ⟨[], by simpa using h.symm, .inl ⟨rfl, ?_⟩⟩
    have hread := components_asPosix habsolute
    rw [hroot] at hread
    exact hread.symm
  · refine ⟨asPosix (scopeText path), by simpa using h.symm, .inr hposix⟩

theorem components_resolved :
    components resolved = w.parts ++ scopeParts path := by
  obtain ⟨-, habsolute, -, -, suffix, rfl, hsuffix⟩ := w.resolvePath_eq_ok h
  rcases hsuffix with ⟨rfl, hnil⟩ | rfl
  · simp [hnil, rootPath, parts]
  · have hread : components (join (scopeParts path)) = scopeParts path :=
      components_join fun c hc => isComponent_of_mem (s := scopeText path) hc
    rcases rootOf_cases habsolute with hroot | hroot
    · rw [hroot, rootPath]
      simpa [parts] using hread
    · rw [hroot, rootPath]
      simpa [parts] using hread

theorem asPosix_resolved :
    asPosix resolved = '/' :: join (w.parts ++ scopeParts path) := by
  have hcomponents := w.components_resolved h
  obtain ⟨-, -, -, -, suffix, rfl, -⟩ := w.resolvePath_eq_ok h
  rw [asPosix_of_absolute (w.isAbsolute_rootPath_append suffix), w.rootOf_rootPath_append,
    hcomponents]
  rfl

end

theorem asPosix_rootPath : asPosix w.rootPath = w.rootPath := by
  have habsolute := w.isAbsolute_rootPath_append []
  have hroot := w.rootOf_rootPath_append []
  rw [List.append_nil] at habsolute hroot
  rw [asPosix_of_absolute habsolute, hroot, rootPath, components_slash]
  show '/' :: join w.parts = _
  rw [w.join_parts]

theorem rstripSlashes_rootPath : Workspace.rstripSlashes w.rootPath = w.rootPath := by
  have hlast := List.dropLast_append_getLast w.parts_ne_nil
  have hcomponent := isComponent_of_mem (List.getLast_mem w.parts_ne_nil)
  obtain ⟨hslash, hne, -⟩ := hcomponent
  have hend : ∃ t, w.rootPath = t ++ w.parts.getLast w.parts_ne_nil := by
    rw [rootPath, ← w.join_parts]
    by_cases hinit : w.parts.dropLast = []
    · refine ⟨['/'], ?_⟩
      conv_lhs => rw [← hlast, hinit]
      simp
    · refine ⟨'/' :: (join w.parts.dropLast ++ ['/']), ?_⟩
      conv_lhs => rw [← hlast, join_append hinit (by simp)]
      simp
  obtain ⟨t, ht⟩ := hend
  unfold Workspace.rstripSlashes
  rw [ht, List.rdropWhile_eq_self_iff]
  intro hnonempty
  have hmem : (t ++ w.parts.getLast w.parts_ne_nil).getLast hnonempty ∈
      w.parts.getLast w.parts_ne_nil := by
    rw [List.getLast_append_of_ne_nil hnonempty hne]
    exact List.getLast_mem hne
  intro hbeq
  rw [beq_iff_eq] at hbeq
  rw [hbeq] at hmem
  exact hslash hmem

theorem requireWithin_resolved (h : w.resolvePath path = .ok resolved) (allowRoot : Bool) :
    Workspace.requireWithin resolved w.rootPath allowRoot =
      if scopeParts path = [] ∧ allowRoot = false then
        .error (.value "operation cannot target the Workdir root")
      else .ok () := by
  unfold Workspace.requireWithin
  simp only [w.asPosix_resolved h, w.asPosix_rootPath]
  by_cases hparts : scopeParts path = []
  · have hsame : '/' :: join (w.parts ++ scopeParts path) = w.rootPath := by
      rw [hparts, List.append_nil, w.join_parts]
      rfl
    rw [if_pos hsame]
    cases allowRoot <;> simp [hparts]
  · have hlonger : '/' :: join (w.parts ++ scopeParts path) =
        w.rootPath ++ '/' :: join (scopeParts path) := by
      rw [join_append w.parts_ne_nil hparts, w.join_parts]
      rfl
    have hroot : w.rootPath ≠ ['/'] := by
      obtain ⟨-, hne, -⟩ := w.relativePath_eq
      simpa [rootPath] using hne
    rw [hlonger, if_neg (by simp), if_neg hroot, w.rstripSlashes_rootPath, if_pos, if_neg]
    · simp [hparts]
    · exact ⟨join (scopeParts path), by simp⟩

/-! ## What is opened -/

/-- The last component that a path names; nothing for the root. -/
def lastPart (path : Text) : Text :=
  (scopeParts path).getLastD []

/-- The components below the root after the second stripping. -/
def openedParts (path : Text) : List Text :=
  (scopeParts path).dropLast ++ components (rstrip (lastPart path))

theorem lastPart_eq_getLast (h : scopeParts path ≠ []) :
    lastPart path = (scopeParts path).getLast h := by
  simp [lastPart, List.getLastD_eq_getLast?, List.getLast?_eq_some_getLast h]

theorem isComponent_lastPart (h : scopeParts path ≠ []) : IsComponent (lastPart path) := by
  rw [lastPart_eq_getLast h]
  exact isComponent_of_mem (List.getLast_mem h)

theorem scopeParts_eq_append (h : scopeParts path ≠ []) :
    scopeParts path = (scopeParts path).dropLast ++ [lastPart path] := by
  rw [lastPart_eq_getLast h, List.dropLast_append_getLast]

theorem components_rstrip_lastPart (path : Text) : components (rstrip (lastPart path)) =
      if counts (rstrip (lastPart path)) then [rstrip (lastPart path)] else [] := by
  apply components_of_not_mem
  intro hmem
  have hslash : '/' ∈ lastPart path := (List.rdropWhile_prefix isSpace _).subset hmem
  by_cases hparts : scopeParts path = []
  · simp [lastPart, hparts] at hslash
  · exact (isComponent_lastPart hparts).1 hslash

theorem openedParts_of_clean (h : rstrip (lastPart path) = lastPart path) :
    openedParts path = scopeParts path := by
  unfold openedParts
  rw [h]
  by_cases hparts : scopeParts path = []
  · simp [lastPart, hparts]
  · rw [components_of_isComponent (isComponent_lastPart hparts), ← scopeParts_eq_append hparts]

section

variable (h : w.resolvePath path = .ok resolved)
include h

theorem exists_resolved_eq (hparts : scopeParts path ≠ []) :
    ∃ front, resolved = '/' :: (front ++ '/' :: lastPart path) ∧
      components front = w.parts ++ (scopeParts path).dropLast := by
  have hcomponents := w.components_resolved h
  have hsplit := scopeParts_eq_append hparts
  have hcomponent := components_of_isComponent (isComponent_lastPart hparts)
  obtain ⟨-, habsolute, -, -, suffix, rfl, hsuffix⟩ := w.resolvePath_eq_ok h
  rcases hsuffix with ⟨-, hnil⟩ | rfl
  · exact absurd hnil hparts
  · -- The last slash before the last component belongs to the root of the path or to its join.
    have hjoin : ∃ front, rootOf (scopeText path) ++ join (scopeParts path) =
        front ++ '/' :: lastPart path := by
      by_cases hinit : (scopeParts path).dropLast = []
      · have hone : scopeParts path = [lastPart path] := by
          rwa [hinit] at hsplit
        rcases rootOf_cases habsolute with hroot | hroot
        · exact ⟨[], by rw [hroot, hone, join_singleton]; rfl⟩
        · exact ⟨['/'], by rw [hroot, hone, join_singleton]; rfl⟩
      · refine ⟨rootOf (scopeText path) ++ join (scopeParts path).dropLast, ?_⟩
        conv_lhs => rw [hsplit, join_append hinit (by simp), join_singleton]
        simp
    obtain ⟨front, hfront⟩ := hjoin
    refine ⟨w.relativePath ++ front, by simp [rootPath, hfront], ?_⟩
    rw [hfront, rootPath] at hcomponents
    have hread : components (w.relativePath ++ front) ++ [lastPart path] =
        w.parts ++ scopeParts path := by
      rw [← hcomponents, ← hcomponent, ← components_append_slash]
      simp
    rw [hsplit, ← List.append_assoc] at hread
    simpa using List.append_cancel_right hread

theorem backslash_not_mem_resolved : '\\' ∉ stripChars resolved := by
  have hresolved : '\\' ∉ resolved := by
    obtain ⟨-, habsolute, -, hbackslash, suffix, rfl, hsuffix⟩ := w.resolvePath_eq_ok h
    obtain ⟨-, -, -, hroot, -⟩ := w.relativePath_eq
    intro hmem
    rcases List.mem_append.mp hmem with hmem | hmem
    · simp [rootPath, hroot] at hmem
    · rcases hsuffix with ⟨rfl, -⟩ | rfl
      · cases hmem
      · rcases List.mem_append.mp hmem with hmem | hmem
        · rcases rootOf_cases habsolute with hslash | hslash <;> simp [hslash] at hmem
        · rcases mem_join hmem with hslash | ⟨c, hc, hx⟩
          · cases hslash
          · exact hbackslash (mem_of_mem_components hc hx)
  obtain ⟨left, right, -, -, heq⟩ := PyText.exists_append_stripChars resolved
  intro hmem
  apply hresolved
  rw [heq]
  simp [hmem]

/-- `_resolve_path` opens the components after the second stripping, unless these end in two
dots. -/
theorem resolvePath_resolved :
    Workspace.resolvePath resolved =
      if rstrip (lastPart path) = "..".toList then .error (.value "invalid Workspace path")
      else .ok (w.parts ++ openedParts path) := by
  have hbackslash := w.backslash_not_mem_resolved h
  obtain ⟨-, -, hdots, -, suffix, heq, hsuffix⟩ := w.resolvePath_eq_ok h
  have hstripped : ∃ t, stripChars resolved = '/' :: t ∧
      components t = w.parts ++ openedParts path := by
    by_cases hparts : scopeParts path = []
    · have hlast : openedParts path = [] := by simp [openedParts, lastPart, hparts, rstrip]
      have hcomponents := w.components_resolved h
      rw [hparts, List.append_nil] at hcomponents
      rw [hlast, List.append_nil]
      rcases hsuffix with ⟨rfl, -⟩ | hsuffix
      · refine ⟨w.relativePath, ?_, rfl⟩
        rw [heq, List.append_nil, rootPath, stripChars_slash, w.rstrip_relativePath]
      · have hslash : ∃ t, suffix = t ++ ['/'] := by
          obtain ⟨-, habsolute, -⟩ := w.resolvePath_eq_ok h
          rw [hparts, join_nil, List.append_nil] at hsuffix
          rcases rootOf_cases habsolute with hroot | hroot
          · exact ⟨[], by rw [hsuffix, hroot]; rfl⟩
          · exact ⟨['/'], by rw [hsuffix, hroot]; rfl⟩
        obtain ⟨t, rfl⟩ := hslash
        have hresolved : resolved = '/' :: ((w.relativePath ++ t) ++ '/' :: []) := by
          simp [heq, rootPath]
        refine ⟨(w.relativePath ++ t) ++ '/' :: [], ?_, ?_⟩
        · rw [hresolved, stripChars_slash_append]
          rfl
        · rw [← hcomponents, hresolved, components_slash]
    · obtain ⟨front, hresolved, hfront⟩ := w.exists_resolved_eq h hparts
      refine ⟨front ++ '/' :: rstrip (lastPart path), ?_, ?_⟩
      · rw [hresolved, stripChars_slash_append]
      · rw [components_append_slash, hfront, openedParts, List.append_assoc]
  obtain ⟨t, ht, hread⟩ := hstripped
  have hmem : "..".toList ∈ w.parts ++ openedParts path ↔ rstrip (lastPart path) = "..".toList := by
    rw [List.mem_append, openedParts, List.mem_append, components_rstrip_lastPart]
    constructor
    · rintro (hroot | hinit | hlast)
      · exact absurd hroot w.dotdot_not_mem_parts
      · exact absurd (List.mem_of_mem_dropLast hinit) hdots
      · split_ifs at hlast
        · exact (List.mem_singleton.mp hlast).symm
        · cases hlast
    · intro hlast
      rw [hlast]
      exact .inr (.inr (by decide))
  unfold Workspace.resolvePath
  simp only [ht] at hbackslash ⊢
  simp only [isAbsolute_iff.mpr ⟨t, rfl⟩, components_slash, hread, hmem, hbackslash]
  simp

end

end Workdir

end Yuanlei
