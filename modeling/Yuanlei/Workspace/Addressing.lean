import Yuanlei.Workspace.RuntimePaths

/-!
# Addressing what is listed

A listing gives the names of a directory, and the viewer builds a path for each of them that it
hands back to the operations of the Workdir.  The path is read once more, and stripped, so a name
that ends in white space is listed but its path is opened as another entry.

Main results:

- `locate_of_clean`: a path with a clean last component is opened as it reads.
- `listed_addressable`: the listed entries are addressed by their paths exactly if neither
  the path of the directory nor the name ends in white space and the prefix of the Sandbox is in
  normal form.
-/

namespace Yuanlei

open PosixPath

open PyText (isSpace stripChars)

open FileTree

open FileTree.FsM (raise raiseIf lift)

open Workspace

namespace Workdir

/-! ## Paths of entries -/

/-- The scope of an entry in `_entry`. -/
def entryScope (parentScope : Text) (name : Name) : Text :=
  let scope := rstripSlashes parentScope ++ '/' :: name
  if ['/'] <+: scope then scope else '/' :: scope

/-- The path of an entry in `_entry`. -/
def entryPath (parentScope : Text) (entry : Entry) : Text :=
  if entry.metadata.isDir then entryScope parentScope entry.name ++ ['/']
  else entryScope parentScope entry.name

/-- A name that an entry of a directory can have, without a backslash. -/
structure LegalName (name : Name) : Prop where
  ne_nil : name ≠ []
  slash : '/' ∉ name
  null : '\x00' ∉ name
  backslash : '\\' ∉ name
  ne_dot : name ≠ ['.']
  ne_dots : name ≠ ['.', '.']

/-- The operations on a path work on the entry with the given components, and the path that comes
back from the Sandbox is located there too. -/
structure Addressed (stack : Nat) (virtualPath : Text) (w : Workdir) (path : Text)
    (entry : List Name) : Prop where
  stat : w.stat path = statAt entry
  read : ∀ maxBytes, 0 ≤ maxBytes → w.readFile path maxBytes = readAt entry maxBytes
  write : ∀ content, w.writeFile path content = writeAt entry content
  moveFrom : ∀ other place, w.locate false other = .ok place →
    w.moveFile path other = moveAt entry place
  moveTo : ∀ other place, w.locate false other = .ok place →
    w.moveFile other path = moveAt place entry
  delete : w.delete stack path = deleteAt stack entry false
  runtime : ∃ runtime scope, runtimePathForWorkdirScope virtualPath w.workdirPath path =
    .ok runtime ∧ workdirScopeFromRuntimePath virtualPath w.workdirPath runtime = .ok scope ∧
      w.locate true scope = .ok entry

/-- The names below the root are legal, and only the given one may end in white space. -/
def Named (w : Workdir) (name : Name) (t : Tree) : Prop :=
  ∀ ps other, (t.get (w.parts ++ ps ++ [other])).isSome →
    LegalName other ∧ (other = name ∨ ¬ EndsInSpace other)

/-- Listing the directory returns on some tree. -/
def Listable (lower : Name → Name) (w : Workdir) (directory : Text) : Prop :=
  ∃ t entries t', w.listDirectory lower directory t = (.ok entries, t')

/-- The listed entries of a directory and the matches of a search are addressed by their paths,
where only the given name may end in white space. -/
structure Addressable (lower : Name → Name) (stack : Nat) (virtualPath : Text) (w : Workdir)
    (directory : Text) (name : Name) : Prop where
  listed : ∀ t t', w.openExisting t = (.ok (), t') → ∀ entries parts t₁,
    w.listDirectory lower directory t = (.ok entries, t₁) → w.locate true directory = .ok parts →
    ∀ entry ∈ entries, LegalName entry.name → (entry.name = name ∨ ¬ EndsInSpace entry.name) →
      Addressed stack virtualPath w (entryPath directory entry) (parts ++ [entry.name])
  found : ∀ t t', w.openExisting t = (.ok (), t') → Named w name t → ∀ query limits results t₁,
    w.search lower query limits t = (.ok results, t₁) → ∀ found ∈ results,
      ∃ ps node, t.get (w.parts ++ ps ++ [found.entry.name]) = some node ∧
        found.entry.metadata = metadataFromStat node ∧
        Addressed stack virtualPath w found.path (w.parts ++ ps ++ [found.entry.name])

/-! ## Paths that are opened as they read -/

section Locating

variable (w : Workdir) {path : Text}

theorem exists_resolved (h : rejects path = false) :
    ∃ resolved, w.resolvePath path = .ok resolved := by
  unfold resolvePath
  rw [h]
  simp only [Bool.false_eq_true, if_false]
  split_ifs
  · exact ⟨_, rfl⟩
  · exact ⟨_, rfl⟩

theorem locate_of_clean (h : rejects path = false)
    (hclean : ¬ EndsInSpace (lastPart path)) {allowRoot : Bool}
    (hroot : allowRoot = true ∨ scopeParts path ≠ []) :
    w.locate allowRoot path = .ok (w.parts ++ scopeParts path) := by
  have hlast : rstrip (lastPart path) = lastPart path := not_not.mp hclean
  obtain ⟨resolved, hresolved⟩ := w.exists_resolved h
  have hdots : rstrip (lastPart path) ≠ "..".toList := by
    rw [hlast]
    intro heq
    have hparts : scopeParts path ≠ [] := by
      intro hnil
      simp [lastPart, hnil] at heq
    apply (w.resolvePath_eq_ok hresolved).2.2.1
    rw [← heq, lastPart_eq_getLast hparts]
    exact List.getLast_mem hparts
  rw [w.locate_of_resolved allowRoot hresolved hroot, w.resolvePath_resolved hresolved,
    if_neg hdots, openedParts_of_clean hlast]

/-- A component that a scope path may have. -/
def Plain (c : Text) : Prop :=
  IsComponent c ∧ c ≠ "..".toList ∧ '\\' ∉ c

theorem LegalName.plain {name : Name} (h : LegalName name) : Plain name :=
  ⟨⟨h.slash, h.ne_nil, h.ne_dot⟩, h.ne_dots, h.backslash⟩

variable {cs : List Text}

section

variable (hne : cs ≠ [])
include hne

theorem scopeText_slash_join (hclean : ¬ EndsInSpace (cs.getLast hne)) :
    scopeText ('/' :: join cs) = '/' :: join cs := by
  simp [scopeText, orText, stripChars_slash, rstrip_join hne hclean]

theorem scopeParts_slash_join (hcs : ∀ c ∈ cs, IsComponent c)
    (hclean : ¬ EndsInSpace (cs.getLast hne)) : scopeParts ('/' :: join cs) = cs := by
  rw [scopeParts, scopeText_slash_join hne hclean, components_slash, components_join hcs]

theorem lastPart_slash_join (hcs : ∀ c ∈ cs, IsComponent c)
    (hclean : ¬ EndsInSpace (cs.getLast hne)) :
    lastPart ('/' :: join cs) = cs.getLast hne := by
  simp [lastPart, scopeParts_slash_join hne hcs hclean, List.getLastD_eq_getLast?,
    List.getLast?_eq_some_getLast hne]

theorem rejects_slash_join (hcs : ∀ c ∈ cs, Plain c)
    (hclean : ¬ EndsInSpace (cs.getLast hne)) : rejects ('/' :: join cs) = false := by
  have hcomponents : ∀ c ∈ cs, IsComponent c := fun c hc => (hcs c hc).1
  have hscheme := no_scheme_slash_join hcomponents
  have hdots : "..".toList ∉ cs := fun hmem => (hcs _ hmem).2.1 rfl
  have hbackslash : '\\' ∉ '/' :: join cs := by
    intro hmem
    rcases List.mem_cons.mp hmem with heq | hmem
    · cases heq
    · rcases mem_join hmem with heq | ⟨c, hc, hx⟩
      · cases heq
      · exact (hcs c hc).2.2 hx
  unfold rejects
  simp only [scopeText_slash_join hne hclean, components_slash, components_join hcomponents]
  simp only [Bool.or_eq_false_iff, decide_eq_false_iff_not, Bool.not_eq_false']
  exact ⟨⟨⟨isAbsolute_iff.mpr ⟨_, rfl⟩, hdots⟩, hbackslash⟩, hscheme⟩

theorem locate_slash_join (hcs : ∀ c ∈ cs, Plain c)
    (hclean : ¬ EndsInSpace (cs.getLast hne)) (allowRoot : Bool) :
    w.locate allowRoot ('/' :: join cs) = .ok (w.parts ++ cs) := by
  have hcomponents : ∀ c ∈ cs, IsComponent c := fun c hc => (hcs c hc).1
  have hlast := lastPart_slash_join hne hcomponents hclean
  have hparts := scopeParts_slash_join hne hcomponents hclean
  rw [w.locate_of_clean (rejects_slash_join hne hcs hclean) (by rw [hlast]; exact hclean)
    (.inr (by rw [hparts]; exact hne)), hparts]

end

end Locating

/-! ## Operations on a located path -/

section Operations

variable {stack : Nat} {virtualPath : Text} {w : Workdir}

theorem stat_eq (path : Text) : w.stat path = lift (w.locate true path) >>= statAt := by
  simp only [stat, statAuthorizedPath, locate_bind]

theorem moveFile_of_locate {source target : Text} {sourceParts targetParts : List Name}
    (hsource : w.locate false source = .ok sourceParts)
    (htarget : w.locate false target = .ok targetParts) :
    w.moveFile source target = moveAt sourceParts targetParts := by
  unfold locate at hsource htarget
  cases hresolved : w.resolvePath source with
  | error e =>
    rw [hresolved] at hsource
    cases hsource
  | ok resolved =>
    cases hresolved' : w.resolvePath target with
    | error e =>
      rw [hresolved'] at htarget
      cases htarget
    | ok resolved' =>
      rw [hresolved] at hsource
      rw [hresolved'] at htarget
      cases hwithin : requireWithin resolved w.rootPath false with
      | error e =>
        simp only [bind, Except.bind, hwithin] at hsource
        cases hsource
      | ok _ =>
        cases hwithin' : requireWithin resolved' w.rootPath false with
        | error e =>
          simp only [bind, Except.bind, hwithin'] at htarget
          cases htarget
        | ok _ =>
          simp only [bind, Except.bind, hwithin, hwithin'] at hsource htarget
          simp [moveFile, moveAuthorizedFile, hresolved, hresolved', hwithin, hwithin',
            hsource, htarget]

variable {entry : List Name} {path : Text}

theorem addressed_of_locate (h : ∀ allowRoot, w.locate allowRoot path = .ok entry)
    (hruntime : ∃ runtime scope, runtimePathForWorkdirScope virtualPath w.workdirPath path =
      .ok runtime ∧ workdirScopeFromRuntimePath virtualPath w.workdirPath runtime = .ok scope ∧
        w.locate true scope = .ok entry) :
    Addressed stack virtualPath w path entry where
  stat := by
    rw [stat_eq, h true]
    rfl
  read := by
    intro maxBytes hmax
    have hunchecked := w.locate_bind_unchecked path fun parts => readAt parts maxBytes
    rw [h true, FsM.lift_ok, FsM.pure_bind] at hunchecked
    rw [← hunchecked]
    simp [readFile, readAuthorizedFile, raiseIf, Int.not_lt.mpr hmax]
  write := by
    intro content
    simp only [writeFile, writeAuthorizedFile, locate_bind_unchecked, h true]
    rfl
  moveFrom := by
    intro other place hplace
    exact moveFile_of_locate (h false) hplace
  moveTo := by
    intro other place hplace
    exact moveFile_of_locate hplace (h false)
  delete := by
    simp only [delete, deleteAuthorizedPath, locate_bind, h false]
    rfl
  runtime := hruntime

/-- A directory is found at its own place only. -/
theorem prefix_of_statAt {parts : List Name} (hparts : parts ≠ [])
    (hopened : Opened (chain entry) entry) (hentry : entry ≠ [])
    (h : statAt parts (chain entry) = statAt entry (chain entry)) : parts <+: entry := by
  obtain ⟨metadata, t', hstat, hdir⟩ := (statAt_isDir_iff hentry).mpr hopened
  rw [hstat] at h
  have hthere := (statAt_isDir_iff hparts).mp ⟨metadata, t', h, hdir⟩
  have hget := hthere.directories _ List.prefix_rfl
  rw [get_chain] at hget
  by_contra hnot
  rw [if_neg hnot] at hget
  cases hget

theorem opened_chain (h : ∀ name ∈ entry, '\x00' ∉ name) : Opened (chain entry) entry := by
  constructor
  · intro q hq
    rw [get_chain, if_pos hq]
  · exact h

theorem locate_of_stat (hentry : entry ≠ [])
    (hnames : ∀ name ∈ entry, '\x00' ∉ name) (h : w.stat path = statAt entry) :
    w.locate true path = .ok entry := by
  rw [stat_eq] at h
  have hopened := opened_chain hnames
  cases hlocate : w.locate true path with
  | error e =>
    obtain ⟨metadata, t', hstat, -⟩ := (statAt_isDir_iff hentry).mpr hopened
    rw [hlocate] at h
    rw [← h] at hstat
    cases hstat
  | ok parts =>
    rw [hlocate, FsM.lift_ok, FsM.pure_bind] at h
    have hparts : parts ≠ [] := by
      obtain ⟨-, rfl, -⟩ := w.locate_eq_ok hlocate
      simp [w.parts_ne_nil]
    have hleading := prefix_of_statAt hparts hopened hentry (by rw [h])
    have hopened' : Opened (chain parts) parts :=
      opened_chain fun name hname => hnames name (hleading.subset hname)
    have hleading' := prefix_of_statAt hentry hopened' hparts (by rw [h])
    rw [hleading.eq_of_length_le hleading'.length_le]

end Operations

/-! ## The path of a listed entry -/

/-- The path of a directory is read as it stands. -/
structure CleanDirectory (w : Workdir) (directory : Text) : Prop where
  stripped : stripChars directory = directory
  clean : ¬ EndsInSpace (lastPart directory)
  scheme : ¬ (rootOf (rstripSlashes directory) = ['/', '/'] ∧ ∃ t, w.relativePath = t ++ [':'])

section EntryPath

/-- A slash and a name behind a text add no scheme. -/
theorem no_scheme_append_name {s name : Text} (hs : ¬ "://".toList <:+: s)
    (hend : s = [] ∨ ∃ t c, s = t ++ [c] ∧ c ≠ '/') (hslash : '/' ∉ name) (hne : name ≠ []) :
    ¬ "://".toList <:+: s ++ '/' :: (name ++ ['/']) := by
  rintro ⟨front, back, heq⟩
  have htext : front ++ (':' :: '/' :: '/' :: back) = s ++ '/' :: (name ++ ['/']) := by
    rw [← heq]
    simp
  rcases List.append_eq_append_iff.mp htext with ⟨e, rfl, hrest⟩ | ⟨e, rfl, hrest⟩
  · -- The scheme starts inside the text.
    match e, hrest with
    | [], hrest => simp at hrest
    | [a], hrest =>
      obtain ⟨b, u, rfl⟩ := List.exists_cons_of_ne_nil hne
      simp only [List.cons_append, List.nil_append, List.cons.injEq] at hrest
      exact hslash (by rw [← hrest.2.2.1]; exact List.mem_cons_self ..)
    | [a, b], hrest =>
      simp only [List.cons_append, List.nil_append, List.cons.injEq] at hrest
      rcases hend with hnil | ⟨t, c, hconcat, hc⟩
      · simp at hnil
      · have hlast := congrArg List.getLast? hconcat
        rw [List.getLast?_concat, List.getLast?_append] at hlast
        simp only [List.getLast?_cons_cons, List.getLast?_singleton, Option.some_or,
          Option.some.injEq] at hlast
        exact hc (hlast.symm.trans hrest.2.1.symm)
    | a :: b :: d :: e, hrest =>
      obtain ⟨rfl, rfl, rfl, -⟩ := hrest
      exact hs ⟨front, e, by simp⟩
  · -- The scheme starts behind the text, where there is one slash too few.
    have hzero : List.count '/' name = 0 := List.count_eq_zero.mpr hslash
    cases e with
    | nil => simp at hrest
    | cons a e =>
      simp only [List.cons_append, List.cons.injEq] at hrest
      obtain ⟨rfl, hrest⟩ := hrest
      have hcount := congrArg (List.count '/') hrest
      simp at hcount
      omega

variable {w : Workdir} {directory : Text} {name : Name}

theorem rejects_eq_false_iff {path : Text} : rejects path = false ↔
    isAbsolute (scopeText path) ∧ "..".toList ∉ scopeParts path ∧ '\\' ∉ scopeText path ∧
      ¬ "://".toList <:+: scopeText path := by
  simp only [rejects, Bool.or_eq_false_iff, Bool.not_eq_false', decide_eq_false_iff_not, scopeParts,
    and_assoc]

theorem scopeText_of_stripped (h : stripChars directory = directory) :
    scopeText directory = orText directory ['/'] := by
  by_cases hnil : directory = []
  · subst hnil
    rfl
  · simp [scopeText, orText, hnil, h]

theorem scopeParts_of_stripped (h : stripChars directory = directory) :
    scopeParts directory = components (rstripSlashes directory) := by
  rw [scopeParts, scopeText_of_stripped h, components_rstripSlashes, orText]
  split_ifs with hnil
  · rw [hnil]
    decide
  · rfl

section

variable (h : rejects directory = false)
include h

section

variable (hstripped : stripChars directory = directory)
include hstripped

theorem rstripSlashes_head :
    rstripSlashes directory = [] ∨ ∃ u, rstripSlashes directory = '/' :: u := by
  by_cases hnil : directory = []
  · left
    rw [hnil]
    rfl
  · obtain ⟨habsolute, -⟩ := rejects_eq_false_iff.mp h
    rw [scopeText_of_stripped hstripped, orText, if_neg hnil] at habsolute
    obtain ⟨u, hu⟩ := isAbsolute_iff.mp habsolute
    obtain ⟨k, hk⟩ := exists_rstripSlashes_append directory
    cases hcons : rstripSlashes directory with
    | nil => exact .inl rfl
    | cons a v =>
      rw [hcons, hu, List.cons_append, List.cons.injEq] at hk
      exact .inr ⟨v, by rw [← hk.1]⟩

theorem entryScope_eq (name : Name) :
    entryScope directory name = rstripSlashes directory ++ '/' :: name := by
  unfold entryScope
  rw [if_pos]
  rcases rstripSlashes_head h hstripped with hnil | ⟨u, hu⟩
  · exact ⟨name, by simp [hnil]⟩
  · exact ⟨u ++ '/' :: name, by simp [hu]⟩

theorem exists_entryPath_eq (entry : Entry) :
    ∃ tail, (tail = [] ∨ tail = ['/']) ∧
      entryPath directory entry = rstripSlashes directory ++ '/' :: (entry.name ++ tail) := by
  unfold entryPath
  rw [entryScope_eq h hstripped]
  split_ifs
  · exact ⟨['/'], .inr rfl, by simp⟩
  · exact ⟨[], .inl rfl, by simp⟩

end

end

section Clean

variable (h : rejects directory = false) (hstripped : stripChars directory = directory)
  (hname : LegalName name) (hclean : ¬ EndsInSpace name) {tail : Text}
  (htail : tail = [] ∨ tail = ['/'])

include h hstripped hname hclean htail

omit hname in
theorem scopeText_entry : scopeText (rstripSlashes directory ++ '/' :: (name ++ tail)) =
    rstripSlashes directory ++ '/' :: (name ++ tail) := by
  have hlast : rstrip (name ++ tail) = name ++ tail := by
    rcases htail with rfl | rfl
    · rw [List.append_nil]
      exact not_not.mp hclean
    · exact rstrip_append_slash name []
  have hstrip : stripChars (rstripSlashes directory ++ '/' :: (name ++ tail)) =
      rstripSlashes directory ++ '/' :: (name ++ tail) := by
    rcases rstripSlashes_head h hstripped with hnil | ⟨u, hu⟩
    · rw [hnil, List.nil_append, stripChars_slash, hlast]
    · rw [hu, List.cons_append, stripChars_slash_append, hlast]
  simp [scopeText, orText, hstrip]

theorem scopeParts_entry : scopeParts (rstripSlashes directory ++ '/' :: (name ++ tail)) =
    scopeParts directory ++ [name] := by
  have hcomponents : components (name ++ tail) = [name] := by
    have hone := components_of_isComponent hname.plain.1
    rcases htail with rfl | rfl
    · rwa [List.append_nil]
    · rw [components_append_slash, hone]
      rfl
  rw [scopeParts, scopeText_entry h hstripped hclean htail, components_append_slash,
    hcomponents, scopeParts_of_stripped hstripped]

theorem rejects_entry : rejects (rstripSlashes directory ++ '/' :: (name ++ tail)) = false := by
  obtain ⟨-, hdots, hbackslash, hscheme⟩ := rejects_eq_false_iff.mp h
  have hsub : ∀ x ∈ rstripSlashes directory, x ∈ directory := fun x hx =>
    (List.rdropWhile_prefix _ directory).subset hx
  have hsame : directory ≠ [] → scopeText directory = directory := by
    intro hne
    rw [scopeText_of_stripped hstripped, orText, if_neg hne]
  rw [rejects_eq_false_iff, scopeParts_entry h hstripped hname hclean htail,
    scopeText_entry h hstripped hclean htail]
  refine ⟨?_, ?_, ?_, ?_⟩
  · rcases rstripSlashes_head h hstripped with hnil | ⟨u, hu⟩
    · exact isAbsolute_iff.mpr ⟨name ++ tail, by rw [hnil]; rfl⟩
    · exact isAbsolute_iff.mpr ⟨u ++ '/' :: (name ++ tail), by rw [hu]; rfl⟩
  · intro hmem
    rcases List.mem_append.mp hmem with hmem | hmem
    · exact hdots hmem
    · exact hname.ne_dots (List.mem_singleton.mp hmem).symm
  · intro hmem
    rcases List.mem_append.mp hmem with hmem | hmem
    · have hdirectoryMem := hsub _ hmem
      rw [hsame (List.ne_nil_of_mem hdirectoryMem)] at hbackslash
      exact hbackslash hdirectoryMem
    · rcases List.mem_cons.mp hmem with heq | hmem
      · cases heq
      · rcases List.mem_append.mp hmem with hmem | hmem
        · exact hname.backslash hmem
        · rcases htail with rfl | rfl
          · cases hmem
          · simp at hmem
  · have hleading : ¬ "://".toList <:+: rstripSlashes directory := by
      intro hinfix
      by_cases hne : directory = []
      · rw [hne] at hinfix
        exact absurd hinfix (by decide)
      · apply hscheme
        rw [hsame hne]
        exact hinfix.trans (List.rdropWhile_prefix _ directory).isInfix
    have hnone := no_scheme_append_name hleading (rstripSlashes_cases directory) hname.slash
      hname.ne_nil
    intro hinfix
    apply hnone
    rcases htail with rfl | rfl
    · refine hinfix.trans ⟨[], ['/'], by simp⟩
    · exact hinfix

theorem lastPart_entry : lastPart (rstripSlashes directory ++ '/' :: (name ++ tail)) = name := by
  simp [lastPart, scopeParts_entry h hstripped hname hclean htail]

theorem readsAsScheme_entry_iff :
    w.ReadsAsScheme (rstripSlashes directory ++ '/' :: (name ++ tail)) ↔
      rootOf (rstripSlashes directory) = ['/', '/'] ∧ ∃ t, w.relativePath = t ++ [':'] := by
  have hroot : rootOf (rstripSlashes directory ++ '/' :: (name ++ tail)) = ['/', '/'] ↔
      rootOf (rstripSlashes directory) = ['/', '/'] := by
    rcases rstripSlashes_cases directory with hnil | ⟨t, c, hconcat, hc⟩
    · obtain ⟨a, u, rfl⟩ := List.exists_cons_of_ne_nil hname.ne_nil
      have ha : a ≠ '/' := by
        rintro rfl
        exact hname.slash (List.mem_cons_self ..)
      rw [hnil, List.nil_append, List.cons_append, rootOf_single ha]
      decide
    · rw [rootOf_append ⟨c, by simp [hconcat], hc⟩]
  rw [ReadsAsScheme, scopeText_entry h hstripped hclean htail, hroot]

end Clean

end EntryPath

variable {stack : Nat} {virtualPath : Text} {w : Workdir}

section

variable (habsolute : isAbsolute virtualPath)
include habsolute

section

variable (hleading : NormalPrefix virtualPath)
include hleading

theorem addressed_of_clean {path : Text} (h : rejects path = false)
    (hparts : scopeParts path ≠ []) (hclean : ¬ EndsInSpace (lastPart path))
    (hscheme : ¬ w.ReadsAsScheme path) :
    Addressed stack virtualPath w path (w.parts ++ scopeParts path) := by
  have hlocate : ∀ allowRoot, w.locate allowRoot path = .ok (w.parts ++ scopeParts path) :=
    fun _ => w.locate_of_clean h hclean (.inr hparts)
  apply addressed_of_locate hlocate
  obtain ⟨resolved, hresolved⟩ := w.exists_resolved h
  obtain ⟨runtime, hthere, hback⟩ :=
    runtime_roundTrip habsolute hleading hresolved hparts hclean hscheme
  refine ⟨runtime, _, hthere, hback, ?_⟩
  obtain ⟨-, hdots, hbackslash, -⟩ := rejects_eq_false_iff.mp h
  apply w.locate_slash_join hparts
  · intro c hc
    refine ⟨isComponent_of_mem hc, ?_, ?_⟩
    · rintro rfl
      exact hdots hc
    · intro hmem
      exact hbackslash (mem_of_mem_components hc hmem)
  · rw [← lastPart_eq_getLast hparts]
    exact hclean

theorem addressed_slash_join {cs : List Text} (hne : cs ≠ []) (hcs : ∀ c ∈ cs, Plain c)
    (hclean : ¬ EndsInSpace (cs.getLast hne)) :
    Addressed stack virtualPath w ('/' :: join cs) (w.parts ++ cs) := by
  have hcomponents : ∀ c ∈ cs, IsComponent c := fun c hc => (hcs c hc).1
  have hparts := scopeParts_slash_join hne hcomponents hclean
  have hscheme : ¬ w.ReadsAsScheme ('/' :: join cs) := by
    rintro ⟨hroot, -⟩
    rw [scopeText_slash_join hne hclean] at hroot
    have hsingle : rootOf ('/' :: join cs) = ['/'] :=
      rootOf_append_join (.inl rfl) hne hcomponents
    rw [hsingle] at hroot
    cases hroot
  have haddressed : Addressed stack virtualPath w _ _ := addressed_of_clean habsolute hleading
    (rejects_slash_join hne hcs hclean) (by rw [hparts]; exact hne)
    (by rw [lastPart_slash_join hne hcomponents hclean]; exact hclean) hscheme
  rwa [hparts] at haddressed

theorem addressed_entry {directory : Text} {parts : List Name}
    (hlocate : w.locate true directory = .ok parts) (hdirectory : CleanDirectory w directory)
    {entry : Entry} (hname : LegalName entry.name) (hclean : ¬ EndsInSpace entry.name) :
    Addressed stack virtualPath w (entryPath directory entry) (parts ++ [entry.name]) := by
  obtain ⟨haccepts, rfl, -⟩ := w.locate_eq_ok hlocate
  obtain ⟨tail, htail, heq⟩ := exists_entryPath_eq haccepts hdirectory.stripped entry
  have hstripped := hdirectory.stripped
  have hparts := scopeParts_entry haccepts hstripped hname hclean htail
  have hscheme := (readsAsScheme_entry_iff (w := w) haccepts hstripped hname hclean htail).not.mpr
    hdirectory.scheme
  have haddressed : Addressed stack virtualPath w _ _ := addressed_of_clean habsolute hleading
    (rejects_entry haccepts hstripped hname hclean htail) (by rw [hparts]; simp)
    (by rwa [lastPart_entry haccepts hstripped hname hclean htail]) hscheme
  rw [heq, openedParts_of_clean (not_not.mp hdirectory.clean), List.append_assoc, ← hparts]
  exact haddressed

end

end

/-! ## What is listed -/

section Listing

variable {lower : Name → Name} {t : Tree} {entries : List Entry} {t' : Tree}

theorem visibleEntries_spec {dir : Path} {names : List Name}
    (h : visibleEntries dir names t = (.ok entries, t')) :
    t' = t ∧ ∀ entry ∈ entries, ∃ node, t.get (dir ++ [entry.name]) = some node ∧
      entry.metadata = metadataFromStat node := by
  induction names generalizing entries t' with
  | nil =>
    cases h
    simp
  | cons name names ih =>
    rw [visibleEntries, FsM.bind_apply] at h
    by_cases hnull : '\x00' ∈ name
    · rw [stat_null hnull] at h
      cases h
    · rw [stat_apply hnull] at h
      cases hget : t.get (dir ++ [name]) with
      | none =>
        rw [hget] at h
        cases h
      | some node =>
        rw [hget] at h
        simp only [FsM.bind_apply] at h
        cases hrest : visibleEntries dir names t with
        | mk result u =>
          rw [hrest] at h
          cases result with
          | error e => cases h
          | ok rest =>
            obtain ⟨rfl, hentries⟩ := ih hrest
            have hcons : ∀ entry ∈ ⟨name, metadataFromStat node⟩ :: rest,
                ∃ node, u.get (dir ++ [entry.name]) = some node ∧
                  entry.metadata = metadataFromStat node := by
              intro entry hentry
              rcases List.mem_cons.mp hentry with rfl | hentry
              · exact ⟨node, hget, rfl⟩
              · exact hentries entry hentry
            cases node with
            | file | directory =>
              cases h
              exact ⟨rfl, hcons⟩
            | symlink | special =>
              cases h
              exact ⟨rfl, hentries⟩

theorem listLimitedAt_spec {parts : List Name} {maxEntries examined : Int}
    (h : listLimitedAt lower parts maxEntries t = (.ok (entries, examined), t')) :
    t' = t ∧ ∀ entry ∈ entries, ∃ node, t.get (parts ++ [entry.name]) = some node ∧
      entry.metadata = metadataFromStat node := by
  unfold listLimitedAt at h
  obtain ⟨dir, u, hopen, hlisted⟩ := FsM.bind_eq_ok h
  obtain rfl := returns_openParts parts false t dir u hopen
  obtain ⟨-, rfl⟩ := opened_of_openParts hopen
  obtain ⟨names, v, hnames, hread⟩ := FsM.bind_eq_ok hlisted
  cases hnames
  obtain ⟨visible, v, hvisible, hsorted⟩ := FsM.bind_eq_ok hread
  obtain ⟨rfl, hentries⟩ := visibleEntries_spec hvisible
  cases hsorted
  refine ⟨rfl, ?_⟩
  intro entry hentry
  exact hentries entry (List.mem_mergeSort.mp hentry)

end Listing

/-! ## What a search returns -/

section Search

variable {lower : Name → Name} {w : Workdir} {t : Tree}

/-- Every name below the root is legal and clean. -/
def AllClean (w : Workdir) (t : Tree) : Prop :=
  ∀ ps name, (t.get (w.parts ++ ps ++ [name])).isSome → LegalName name ∧ ¬ EndsInSpace name

/-- A text that the search makes: the root and clean names below it. -/
def ReadsAt (w : Workdir) (text : Text) (ps : List Name) : Prop :=
  text = '/' :: join (w.parts ++ ps) ∧ ∀ p ∈ ps, LegalName p ∧ ¬ EndsInSpace p

/-- The match is an entry of the tree, under the text that the search made for it. -/
def FoundAt (w : Workdir) (t : Tree) (found : Match) : Prop :=
  ∃ ps node, ReadsAt w found.path (ps ++ [found.entry.name]) ∧
    t.get (w.parts ++ ps ++ [found.entry.name]) = some node ∧
    found.entry.metadata = metadataFromStat node

variable {text : Text} {ps : List Name}

theorem ReadsAt.getLast_clean (h : ReadsAt w text ps)
    (hne : ps ≠ []) : ¬ EndsInSpace (ps.getLast hne) :=
  (h.2 _ (List.getLast_mem hne)).2

theorem ReadsAt.eq_append (h : ReadsAt w text ps) (hne : ps ≠ []) :
    text = w.rootPath ++ '/' :: join ps := by
  rw [h.1, join_append w.parts_ne_nil hne, w.join_parts]
  rfl

theorem readsAt_root : ReadsAt w w.rootPath [] := by
  constructor
  · rw [List.append_nil, w.join_parts]
    rfl
  · simp

section

variable (h : ReadsAt w text ps)
include h

/-- Stripping and cutting slashes leave such a text alone. -/
theorem ReadsAt.stripChars_eq : stripChars text = text := by
  rw [h.1, stripChars_slash]
  by_cases hne : ps = []
  · rw [hne, List.append_nil, w.join_parts, w.rstrip_relativePath]
  · rw [rstrip_join (by simp [hne])]
    rw [List.getLast_append_of_ne_nil _ hne]
    exact h.getLast_clean hne

theorem isComponent_of_readsAt : ∀ c ∈ w.parts ++ ps, IsComponent c := by
  intro c hc
  rcases List.mem_append.mp hc with hc | hc
  · exact isComponent_of_mem hc
  · exact (h.2 c hc).1.plain.1

theorem ReadsAt.rstripSlashes_eq : rstripSlashes text = text := by
  have hne : w.parts ++ ps ≠ [] := by simp [w.parts_ne_nil]
  obtain ⟨hslash, hlastNe, -⟩ := isComponent_of_readsAt h _ (List.getLast_mem hne)
  -- The text ends in the last character of its last component.
  have hend : ∃ front, text = front ++ (w.parts ++ ps).getLast hne := by
    rw [h.1]
    rcases join_getLast hne with heq | ⟨front, heq⟩
    · exact ⟨['/'], by rw [heq]; rfl⟩
    · exact ⟨'/' :: (front ++ ['/']), by rw [heq]; simp⟩
  obtain ⟨front, hfront⟩ := hend
  have hlast := List.dropLast_append_getLast hlastNe
  have hchar : ((w.parts ++ ps).getLast hne).getLast hlastNe ≠ '/' := by
    intro heq
    exact hslash (by rw [← heq]; exact List.getLast_mem hlastNe)
  rw [hfront, ← hlast, ← List.append_assoc]
  exact rstripSlashes_concat hchar

theorem ReadsAt.child {name : Name} (hname : LegalName name) (hclean : ¬ EndsInSpace name) :
    ReadsAt w (rstripSlashes text ++ '/' :: name) (ps ++ [name]) := by
  constructor
  · have hne : w.parts ++ ps ≠ [] := by simp [w.parts_ne_nil]
    rw [h.rstripSlashes_eq, h.1, ← List.append_assoc, join_append hne (by simp), join_singleton]
    rfl
  · intro p hp
    rcases List.mem_append.mp hp with hp | hp
    · exact h.2 p hp
    · rw [List.mem_singleton.mp hp]
      exact ⟨hname, hclean⟩

theorem ReadsAt.resolvePath_eq
    {parts : List Name} (hparts : Workspace.resolvePath text = .ok parts) :
    parts = w.parts ++ ps := by
  unfold Workspace.resolvePath at hparts
  simp only [h.stripChars_eq] at hparts
  split_ifs at hparts
  rw [← Except.ok.inj hparts, h.1, components_slash, components_join (isComponent_of_readsAt h)]

end

variable {directory : Text} {t' : Tree}

theorem listAuthorizedDirectoryLimited_spec (h : ReadsAt w directory ps) {maxEntries examined : Int}
    {entries : List Entry}
    (hlist : listAuthorizedDirectoryLimited lower directory w.rootPath maxEntries t =
      (.ok (entries, examined), t')) :
    t' = t ∧ ∀ entry ∈ entries, ∃ node, t.get (w.parts ++ ps ++ [entry.name]) = some node ∧
      entry.metadata = metadataFromStat node := by
  obtain ⟨u, t₁, hlimit, hchecked⟩ := FsM.bind_eq_ok hlist
  obtain rfl := FsM.raiseIf_eq_ok hlimit
  obtain ⟨v, t₂, hwithin, hresolve⟩ := FsM.bind_eq_ok hchecked
  obtain ⟨-, rfl⟩ := FsM.lift_eq_ok hwithin
  obtain ⟨parts, t₃, hparts, hlisted⟩ := FsM.bind_eq_ok hresolve
  obtain ⟨hresolved, rfl⟩ := FsM.lift_eq_ok hparts
  rw [h.resolvePath_eq hresolved] at hlisted
  exact listLimitedAt_spec hlisted

theorem scanEntries_spec (lower : Name → Name) (hclean : AllClean w t) (limits : SearchLimits)
    (query : Text)
    (h : ReadsAt w directory ps) (depth : Int)
    (items : List Entry) (hitems : ∀ item ∈ items, ∃ node,
      t.get (w.parts ++ ps ++ [item.name]) = some node ∧ item.metadata = metadataFromStat node)
    (s : ScanState) (hpending : ∀ d ∈ s.pending, ∃ ps, ReadsAt w d.1 ps)
    (hresults : ∀ found ∈ s.results, FoundAt w t found) :
    (∀ d ∈ (scanEntries lower limits query directory depth items s).pending,
      ∃ ps, ReadsAt w d.1 ps) ∧
    ∀ found ∈ (scanEntries lower limits query directory depth items s).results,
      FoundAt w t found := by
  induction items generalizing s with
  | nil => exact ⟨hpending, hresults⟩
  | cons item items ih =>
    obtain ⟨node, hget, hmetadata⟩ := hitems item (List.mem_cons_self ..)
    obtain ⟨hname, hend⟩ := hclean ps item.name (by rw [hget]; rfl)
    have hchild := h.child hname hend
    have hrest : ∀ item ∈ items, ∃ node, t.get (w.parts ++ ps ++ [item.name]) = some node ∧
        item.metadata = metadataFromStat node := fun item hitem =>
      hitems item (List.mem_cons_of_mem _ hitem)
    have hpending' : ∀ d ∈ s.pending ++
        [(rstripSlashes directory ++ '/' :: item.name, depth + 1)], ∃ ps, ReadsAt w d.1 ps := by
      intro d hd
      rcases List.mem_append.mp hd with hold | hnew
      · exact hpending d hold
      · rw [List.mem_singleton.mp hnew]
        exact ⟨_, hchild⟩
    have hresults' : ∀ found ∈ s.results ++
        [⟨rstripSlashes directory ++ '/' :: item.name, item⟩], FoundAt w t found := by
      intro found hfound
      rcases List.mem_append.mp hfound with hold | hnew
      · exact hresults found hold
      · rw [List.mem_singleton.mp hnew]
        exact ⟨ps, node, hchild, hget, hmetadata⟩
    simp only [scanEntries]
    split_ifs
    all_goals first
      | exact ⟨hpending', hresults'⟩
      | exact ⟨hpending, hresults'⟩
      | exact ih hrest _ hpending' hresults'
      | exact ih hrest _ hpending hresults'
      | exact ih hrest _ hpending' hresults
      | exact ih hrest _ hpending hresults

theorem searchLoop_spec (hclean : AllClean w t) (limits : SearchLimits) (query : Text)
    (visits : Nat) (pending : List (Text × Int)) (scanned : Int) (results : List Match)
    (hpending : ∀ d ∈ pending, ∃ ps, ReadsAt w d.1 ps)
    (hresults : ∀ found ∈ results, FoundAt w t found) {found : List Match} (h : searchLoop lower
      (fun directory => listAuthorizedDirectoryLimited lower directory w.rootPath) limits query
      visits pending scanned results t = (.ok found, t')) :
    ∀ m ∈ found, FoundAt w t m := by
  induction visits generalizing pending scanned results with
  | zero =>
    cases h
    exact hresults
  | succ visits ih =>
    cases pending with
    | nil =>
      cases h
      exact hresults
    | cons d pending =>
      obtain ⟨directory, depth⟩ := d
      obtain ⟨ps, hreads⟩ := hpending (directory, depth) (List.mem_cons_self ..)
      have hrest : ∀ d ∈ pending, ∃ ps, ReadsAt w d.1 ps := fun d hd =>
        hpending d (List.mem_cons_of_mem _ hd)
      simp only [searchLoop] at h
      split_ifs at h
      · obtain ⟨⟨entries, examined⟩, u, hlist, hloop⟩ := FsM.bind_eq_ok h
        obtain ⟨rfl, hentries⟩ := listAuthorizedDirectoryLimited_spec hreads hlist
        obtain ⟨hpending', hresults'⟩ := scanEntries_spec lower hclean limits query
          hreads depth entries hentries ⟨pending, results, false⟩ hrest hresults
        split_ifs at hloop
        · cases hloop
          exact hresults'
        · exact ih _ _ _ hpending' hresults' hloop
      · cases h
        exact hresults

theorem scopePath_of_readsAt (h : ReadsAt w text ps)
    (hne : ps ≠ []) : w.scopePath text = .ok ('/' :: join ps) := by
  have hnormal : asPosix text = text := by
    rw [h.1]
    exact asPosix_append_join (.inl rfl) (by simp [w.parts_ne_nil]) (isComponent_of_readsAt h)
  have htext := h.eq_append hne
  have hdrop : text.drop (w.rootPath.length + 1) = join ps := by
    have hsplit : text = (w.rootPath ++ ['/']) ++ join ps := by
      rw [htext]
      simp
    rw [hsplit, List.drop_left' (by simp)]
  unfold scopePath
  simp only [hnormal, w.rstripSlashes_rootPath]
  rw [if_neg (by rw [htext]; simp), if_pos ⟨join ps, by rw [htext]; simp⟩, hdrop]

theorem mem_of_mapM {α β ε : Type} {f : α → Except ε β} {as : List α} {bs : List β}
    (h : as.mapM f = .ok bs) : ∀ b ∈ bs, ∃ a ∈ as, f a = .ok b := by
  induction as generalizing bs with
  | nil =>
    cases h
    simp
  | cons a as ih =>
    rw [List.mapM_cons] at h
    cases ha : f a with
    | error e =>
      rw [ha] at h
      cases h
    | ok first =>
      cases has : as.mapM f with
      | error e =>
        rw [ha, has] at h
        cases h
      | ok rest =>
        rw [ha, has] at h
        cases h
        intro b hb
        rcases List.mem_cons.mp hb with rfl | hb
        · exact ⟨a, List.mem_cons_self .., ha⟩
        · obtain ⟨a', ha', hf⟩ := ih has b hb
          exact ⟨a', List.mem_cons_of_mem _ ha', hf⟩

/-- A search among clean names returns entries of the tree, each under the slash and the names on
the way to it. -/
theorem search_matches (hclean : AllClean w t) {query : Text} {limits : SearchLimits}
    {results : List Match} (h : w.search lower query limits t = (.ok results, t')) :
    ∀ found ∈ results, ∃ ps node, found.path = '/' :: join (ps ++ [found.entry.name]) ∧
      (∀ p ∈ ps ++ [found.entry.name], LegalName p ∧ ¬ EndsInSpace p) ∧
      t.get (w.parts ++ ps ++ [found.entry.name]) = some node ∧
      found.entry.metadata = metadataFromStat node := by
  obtain ⟨scanned, u, hloop, hscope⟩ := FsM.bind_eq_ok h
  obtain ⟨hmapped, -⟩ := FsM.lift_eq_ok hscope
  have hfound := searchLoop_spec hclean limits _ _ _ _ _
    (by simpa using ⟨[], readsAt_root (w := w)⟩) (by simp) hloop
  intro found hmem
  obtain ⟨m, hm, hmatch⟩ := mem_of_mapM hmapped found hmem
  obtain ⟨ps, node, hreads, hget, hmetadata⟩ := hfound m hm
  unfold scopeMatch at hmatch
  rw [scopePath_of_readsAt hreads (by simp)] at hmatch
  cases hmatch
  exact ⟨ps, node, rfl, hreads.2, hget, hmetadata⟩

end Search

/-! ## Names that are not addressed -/

section Necessity

variable {lower : Name → Name} {stack : Nat} {w : Workdir} {directory : Text} {name : Name}

/-- The directories on the way to a place and one file there. -/
def entryTree (parts : List Name) (name : Name) : Tree :=
  (chain parts).upsert (parts ++ [name]) (.file [])

theorem get_entryTree (parts : List Name) (q : Path) : (entryTree parts name).get q =
      if q = parts ++ [name] then some (.file []) else (chain parts).get q := by
  rw [entryTree, Table.get_upsert]

variable {parts : List Name}

theorem opened_entryTree (name : Name) (h : ∀ part ∈ parts, '\x00' ∉ part) :
    Opened (entryTree parts name) parts := by
  refine ⟨?_, h⟩
  intro q hq
  have hne : q ≠ parts ++ [name] := by
    rintro rfl
    have hlength := hq.length_le
    simp only [List.length_append, List.length_singleton] at hlength
    omega
  rw [get_entryTree, if_neg hne, get_chain, if_pos hq]

/-- The only name in the directory is the one of the file. -/
theorem eq_of_mem_listNames {names : List Name} {t' : Tree}
    (h : (listNames parts : Fs (List Name)) (entryTree parts name) = (.ok names, t')) :
    ∀ other, other ∈ names ↔ other = name := by
  cases h
  intro other
  have hkey : ∀ q, q ∈ (entryTree parts name).keys ↔ (entryTree parts name).get q ≠ none := by
    intro q
    rw [ne_eq, Table.get_eq_none_iff, not_not]
    rfl
  simp only [List.mem_map, List.mem_filter, Bool.and_eq_true, bne_iff_ne, beq_iff_eq, hkey,
    get_entryTree]
  constructor
  · rintro ⟨q, ⟨hget, hq, hdir⟩, rfl⟩
    have hsplit := List.dropLast_append_getLast hq
    by_cases hsame : q = parts ++ [name]
    · rw [hsame]
      simp
    · rw [if_neg hsame, get_chain] at hget
      rw [hdir] at hsplit
      have hleading : q <+: parts := by
        by_contra hnot
        rw [if_neg hnot] at hget
        exact hget rfl
      have hlength := hleading.length_le
      rw [← hsplit] at hlength
      simp only [List.length_append, List.length_singleton] at hlength
      omega
  · rintro rfl
    exact ⟨parts ++ [other], by simp⟩

theorem visibleEntries_file (hname : '\x00' ∉ name) (names : List Name)
    (h : ∀ other ∈ names, other = name) :
    visibleEntries parts names (entryTree parts name) =
      (.ok (names.map fun other => ⟨other, ⟨false, 0⟩⟩), entryTree parts name) := by
  induction names with
  | nil => rfl
  | cons other names ih =>
    obtain rfl := h other (List.mem_cons_self ..)
    have hrest := ih fun other hother => h other (List.mem_cons_of_mem _ hother)
    rw [visibleEntries, FsM.bind_apply, stat_apply hname, get_entryTree, if_pos rfl]
    simp only [FsM.bind_apply, hrest]
    rfl

theorem listAt_entryTree (lower : Name → Name) (h : ∀ part ∈ parts, '\x00' ∉ part)
    (hname : '\x00' ∉ name) : ∃ entries,
      listAt lower parts (entryTree parts name) = (.ok entries, entryTree parts name) ∧
        ⟨name, ⟨false, 0⟩⟩ ∈ entries := by
  have hopen := openParts_opened (opened_entryTree name h) false
  obtain ⟨names, hnames⟩ : ∃ names, (listNames parts : Fs (List Name)) (entryTree parts name) =
        (.ok names, entryTree parts name) := ⟨_, rfl⟩
  have hmem := eq_of_mem_listNames hnames
  have hsorted : ∀ other, other ∈ sortNames lower names ↔ other = name := by
    intro other
    rw [sortNames, List.mem_mergeSort, hmem]
  refine ⟨(sortNames lower names).map fun other => ⟨other, ⟨false, 0⟩⟩, ?_, ?_⟩
  · unfold listAt
    rw [FsM.bind_apply, hopen]
    simp only [FsM.bind_apply, hnames]
    exact visibleEntries_file hname _ fun other hother => (hsorted other).mp hother
  · exact List.mem_map.mpr ⟨name, (hsorted name).mpr rfl, rfl⟩

theorem listDirectory_eq : w.listDirectory lower directory =
    lift (w.locate true directory) >>= listAt lower := by
  simp only [listDirectory, listAuthorizedDirectory, locate_bind]

/-- A directory that is listed is located, at names that a call can be given. -/
theorem Listable.locate (h : Listable lower w directory) :
    ∃ parts, w.locate true directory = .ok parts ∧ ∀ part ∈ parts, '\x00' ∉ part := by
  obtain ⟨t, entries, t', hlist⟩ := h
  rw [listDirectory_eq] at hlist
  obtain ⟨parts, u, hlocate, hread⟩ := FsM.bind_eq_ok hlist
  obtain ⟨hparts, -⟩ := FsM.lift_eq_ok hlocate
  obtain ⟨dir, v, hopen, -⟩ := FsM.bind_eq_ok hread
  exact ⟨parts, hparts, (opened_of_openParts hopen).1.names⟩

theorem Addressable.addressed {virtualPath : Text}
    (h : Addressable lower stack virtualPath w directory name)
    (hlocate : w.locate true directory = .ok parts) (hnames : ∀ part ∈ parts, '\x00' ∉ part)
    {other : Name} (hother : LegalName other) (hclean : other = name ∨ ¬ EndsInSpace other) :
    Addressed stack virtualPath w (entryScope directory other) (parts ++ [other]) := by
  obtain ⟨entries, hlist, hmem⟩ := listAt_entryTree lower hnames hother.null
  have hopened := opened_entryTree other hnames
  obtain ⟨-, heq, -⟩ := w.locate_eq_ok hlocate
  have hleading : w.parts <+: parts := by
    rw [heq]
    exact List.prefix_append _ _
  obtain ⟨t', hexisting⟩ := (w.openExisting_iff _).mpr (hopened.of_prefix hleading)
  have hdirectory : w.listDirectory lower directory (entryTree parts other) =
      (.ok entries, entryTree parts other) := by
    rw [listDirectory_eq, hlocate]
    exact hlist
  exact h.listed _ t' hexisting entries parts _ hdirectory hlocate _ hmem hother hclean

theorem exists_entryScope_eq (directory name : Text) : ∃ front,
    entryScope directory name = front ++ '/' :: name ∧ components front = components directory ∧
      (front = [] ∨ ∃ u, front = '/' :: u) := by
  unfold entryScope
  simp only
  split_ifs with hslash
  · refine ⟨rstripSlashes directory, rfl, components_rstripSlashes directory, ?_⟩
    obtain ⟨u, hu⟩ := hslash
    cases hcons : rstripSlashes directory with
    | nil => exact .inl rfl
    | cons a v =>
      rw [hcons, List.cons_append, List.cons_append, List.cons.injEq] at hu
      exact .inr ⟨v, by rw [hu.1]⟩
  · exact ⟨'/' :: rstripSlashes directory, rfl, by rw [components_slash, components_rstripSlashes],
      .inr ⟨_, rfl⟩⟩

theorem scopeParts_entryScope (directory name : Text) :
    scopeParts (entryScope directory name) = components directory ++ components (rstrip name) := by
  obtain ⟨front, heq, hfront, hhead⟩ := exists_entryScope_eq directory name
  have hstrip : stripChars (front ++ '/' :: name) = front ++ '/' :: rstrip name := by
    rcases hhead with rfl | ⟨u, rfl⟩
    · rw [List.nil_append, stripChars_slash]
      rfl
    · rw [List.cons_append, stripChars_slash_append]
      rfl
  have htext : scopeText (entryScope directory name) = front ++ '/' :: rstrip name := by
    rw [heq]
    simp [scopeText, orText, hstrip]
  rw [scopeParts, htext, components_append_slash, hfront]

theorem openedParts_entryScope {name : Text} (hslash : '/' ∉ name) (h : counts (rstrip name)) :
    openedParts (entryScope directory name) = components directory ++ [rstrip name] := by
  have hidem : rstrip (rstrip name) = rstrip name := List.rdropWhile_idempotent isSpace _
  have hone : components (rstrip name) = [rstrip name] := by
    rw [components_of_not_mem, if_pos h]
    intro hmem
    exact hslash ((List.rdropWhile_prefix isSpace _).subset hmem)
  have hparts := scopeParts_entryScope directory name
  rw [hone] at hparts
  have hlast : lastPart (entryScope directory name) = rstrip name := by
    simp [lastPart, hparts]
  rw [openedParts, hlast, hparts, hidem, hone, List.dropLast_concat]

theorem length_openedParts_le (path : Text) :
    (openedParts path).length ≤ (scopeParts path).length := by
  rw [openedParts, components_rstrip_lastPart, List.length_append, List.length_dropLast]
  by_cases hparts : scopeParts path = []
  · simp [lastPart, hparts, rstrip, counts]
  · have hpositive : 0 < (scopeParts path).length := List.length_pos_of_ne_nil hparts
    split_ifs
    · simp only [List.length_singleton]
      omega
    · simp only [List.length_nil]
      omega

theorem countP_eq_length {s : Text} (h : ∀ x ∈ s, isSpace x) : s.countP isSpace = s.length :=
  List.countP_eq_length.mpr h

theorem countP_rstrip (s : Text) :
    s.countP isSpace = (rstrip s).countP isSpace + (s.rtakeWhile isSpace).length := by
  conv_lhs => rw [← List.rdropWhile_append_rtakeWhile (p := isSpace) (l := s)]
  rw [List.countP_append, countP_eq_length fun x hx => List.mem_rtakeWhile_imp hx]
  rfl

/-- A directory whose components are opened as they stand has no white space around it, and none
behind its last component: what is stripped would be missing from what is opened. -/
theorem clean_of_components_eq (h : components directory = openedParts directory) :
    stripChars directory = directory ∧ ¬ EndsInSpace (lastPart directory) := by
  obtain ⟨left, right, hleft, hright, heq⟩ := PyText.exists_append_stripChars directory
  have hcount : ∀ s, (components s).flatten.countP isSpace = s.countP isSpace :=
    countP_flatten_components isSpace (by decide) (by decide)
  have hdirectory : directory.countP isSpace =
      left.length + (stripChars directory).countP isSpace + right.length := by
    conv_lhs => rw [heq]
    rw [List.countP_append, List.countP_append, countP_eq_length hleft, countP_eq_length hright,
      Nat.add_assoc]
  have htext : (scopeText directory).countP isSpace ≤ (stripChars directory).countP isSpace := by
    unfold scopeText orText
    split_ifs with hnil hempty hempty
    · simp [isSpace, stripChars]
    · simp [isSpace, stripChars]
    · simp [isSpace]
    · exact Nat.le_refl _
  have hopened : (scopeParts directory).flatten.countP isSpace =
      (openedParts directory).flatten.countP isSpace +
        ((lastPart directory).rtakeWhile isSpace).length := by
    by_cases hparts : scopeParts directory = []
    · simp [openedParts, lastPart, hparts, rstrip]
    · conv_lhs => rw [scopeParts_eq_append hparts]
      rw [openedParts, List.flatten_append, List.flatten_append, List.countP_append,
        List.countP_append, hcount, List.flatten_singleton, countP_rstrip (lastPart directory)]
      omega
  have hscope : (scopeParts directory).flatten.countP isSpace =
      (scopeText directory).countP isSpace := hcount _
  have hread := hcount directory
  rw [h] at hread
  have hzero : left.length = 0 ∧ right.length = 0 ∧
      ((lastPart directory).rtakeWhile isSpace).length = 0 := by
    omega
  constructor
  · rw [List.length_eq_zero_iff, List.length_eq_zero_iff] at hzero
    rw [hzero.1, hzero.2.1] at heq
    simpa using heq.symm
  · rw [EndsInSpace, not_not]
    have hlast := List.rdropWhile_append_rtakeWhile (p := isSpace) (l := lastPart directory)
    rwa [List.length_eq_zero_iff.mp hzero.2.2, List.append_nil] at hlast

end Necessity

/-! ## Exactly the clean names are addressed -/

theorem Addressable.clean {lower : Name → Name} {directory : Text} {name : Name}
    (habsolute : isAbsolute virtualPath)
    (h : Addressable lower stack virtualPath w directory name) (hlist : Listable lower w directory)
    (hname : LegalName name) :
    CleanDirectory w directory ∧ ¬ EndsInSpace name ∧ NormalPrefix virtualPath := by
  obtain ⟨parts, hlocate, hnames⟩ := hlist.locate
  obtain ⟨haccepts, hparts, -⟩ := w.locate_eq_ok hlocate
  -- What is opened for a name is the directory as it is listed, and the name.
  have hopened : ∀ other, LegalName other → (other = name ∨ ¬ EndsInSpace other) →
      openedParts (entryScope directory other) = openedParts directory ++ [other] := by
    intro other hother hclean
    have haddressed := h.addressed hlocate hnames hother hclean
    have hnull : ∀ part ∈ parts ++ [other], '\x00' ∉ part := by
      intro part hpart
      rcases List.mem_append.mp hpart with hpart | hpart
      · exact hnames part hpart
      · rw [List.mem_singleton.mp hpart]
        exact hother.null
    have hthere := locate_of_stat (by simp) hnull haddressed.stat
    obtain ⟨-, heq, -⟩ := w.locate_eq_ok hthere
    rw [hparts, List.append_assoc] at heq
    exact (List.append_cancel_left heq).symm
  have hsample : LegalName ['x'] := by
    constructor <;> decide
  have hcomponents : components directory = openedParts directory := by
    have hthere := hopened ['x'] hsample (.inr (by decide))
    rw [openedParts_entryScope (by decide) (by decide)] at hthere
    exact List.append_cancel_right hthere
  obtain ⟨hstripped, hlast⟩ := clean_of_components_eq hcomponents
  have hclean : ¬ EndsInSpace name := by
    have hthere := hopened name hname (.inl rfl)
    rw [← hcomponents] at hthere
    by_cases hcounts : counts (rstrip name)
    · rw [openedParts_entryScope hname.slash hcounts] at hthere
      have hsame := List.append_cancel_left hthere
      exact not_not.mpr (by simpa using hsame)
    · have hlength := length_openedParts_le (entryScope directory name)
      have hslash : '/' ∉ rstrip name := fun hmem =>
        hname.slash ((List.rdropWhile_prefix isSpace _).subset hmem)
      rw [scopeParts_entryScope, components_of_not_mem hslash, if_neg hcounts, hthere] at hlength
      simp only [List.length_append, List.length_singleton, List.length_nil] at hlength
      omega
  have haddressed := h.addressed hlocate hnames hname (.inl rfl)
  obtain ⟨runtime, scope, hthere, hback, -⟩ := haddressed.runtime
  refine ⟨⟨hstripped, hlast, ?_⟩, hclean, normalPrefix_of_scope habsolute hback⟩
  -- The path of the name is mapped, so it does not read as a scheme.
  have hscheme := readsAsScheme_entry_iff (w := w) haccepts hstripped hname hclean (.inl rfl)
  rw [← hscheme, List.append_nil, ← entryScope_eq haccepts hstripped]
  obtain ⟨resolved, hresolved⟩ : ∃ resolved,
      w.resolvePath (entryScope directory name) = .ok resolved := by
    apply w.exists_resolved
    have haccepted := rejects_entry haccepts hstripped hname hclean (.inl rfl)
    rwa [List.append_nil, ← entryScope_eq haccepts hstripped] at haccepted
  have hentryParts := scopeParts_entry haccepts hstripped hname hclean (.inl rfl)
  have hentryLast := lastPart_entry haccepts hstripped hname hclean (.inl rfl)
  rw [List.append_nil, ← entryScope_eq haccepts hstripped] at hentryParts hentryLast
  apply w.not_readsAsScheme virtualPath hresolved _ _ hthere
  · rw [hentryParts]
    simp
  · rw [hentryLast]
    exact hclean

/-- What `list_directory` and `search` return is addressed by the paths that are built for it,
exactly if neither the path of the directory nor the name is changed by stripping and the prefix
of the Sandbox is in normal form. -/
theorem listed_addressable (lower : Name → Name) (stack : Nat) (env : Option Text) (w : Workdir)
    (directory : Text) (name : Name) (hlist : Listable lower w directory) (hname : LegalName name) :
    Addressable lower stack (getVirtualPathPrefix env) w directory name ↔
      CleanDirectory w directory ∧ ¬ EndsInSpace name ∧
        NormalPrefix (getVirtualPathPrefix env) := by
  have habsolute := isAbsolute_getVirtualPathPrefix env
  constructor
  · intro h
    exact h.clean habsolute hlist hname
  · rintro ⟨hdirectory, hclean, hleading⟩
    have hother : ∀ {other}, other = name ∨ ¬ EndsInSpace other → ¬ EndsInSpace other := by
      rintro other (rfl | hother)
      · exact hclean
      · exact hother
    constructor
    · intro t t' _ entries parts t₁ _ hlocate entry _ hlegal hspace
      exact addressed_entry habsolute hleading hlocate hdirectory hlegal (hother hspace)
    · intro t t' _ hnamed query limits results t₁ hsearch found hfound
      have hallClean : AllClean w t := by
        intro ps other hsome
        obtain ⟨hlegal, hspace⟩ := hnamed ps other hsome
        exact ⟨hlegal, hother hspace⟩
      obtain ⟨ps, node, hpath, hps, hget, hmetadata⟩ :=
        search_matches hallClean hsearch found hfound
      refine ⟨ps, node, hget, hmetadata, ?_⟩
      rw [hpath, List.append_assoc]
      exact addressed_slash_join habsolute hleading (by simp) (fun p hp => (hps p hp).1.plain)
        (hps _ (List.getLast_mem _)).2

/-- The names of the notes of a project are addressed. -/
theorem notes_addressable :
    Addressable id 100 (getVirtualPathPrefix none) sample ['/'] "notes.md".toList := by
  have hopened : Opened sampleTree sample.parts := by
    constructor
    · intro q hq
      rw [← List.mem_inits] at hq
      revert q
      decide
    · decide
  have hlist : Listable id sample ['/'] := by
    refine ⟨sampleTree, [⟨"notes.md".toList, ⟨false, 0⟩⟩], sampleTree, ?_⟩
    have hsort : sortNames id ["notes.md".toList] = ["notes.md".toList] := by
      simp [sortNames]
    show listAt id sample.parts sampleTree = _
    show visibleEntries sample.parts (sortNames id ["notes.md".toList]) sampleTree = _
    rw [hsort]
    rfl
  have hname : LegalName "notes.md".toList := by
    constructor <;> decide
  have hdirectory : CleanDirectory sample ['/'] := by
    refine ⟨by decide, by decide, ?_⟩
    rintro ⟨hroot, -⟩
    exact absurd hroot (by decide)
  exact (listed_addressable id 100 none sample ['/'] "notes.md".toList hlist hname).mpr
    ⟨hdirectory, by decide, by decide⟩

/-- A project with two files whose names differ in a blank at the end. -/
def blankTree : Tree where
  rows :=
    [([], .directory), (["projects".toList], .directory),
     (["projects".toList, "demo".toList], .directory),
     (["projects".toList, "demo".toList, "a".toList], .file [1]),
     (["projects".toList, "demo".toList, "a ".toList], .file [2])]
  nodupKeys := by decide

/-- Deleting the listed file with the blank deletes the other one. -/
theorem delete_listed_deletes_other : (sample.listDirectory id ['/'] blankTree =
      (.ok [⟨"a".toList, ⟨false, 1⟩⟩, ⟨"a ".toList, ⟨false, 1⟩⟩], blankTree)) ∧
    (let t := (sample.delete 100 (entryPath ['/'] ⟨"a ".toList, ⟨false, 1⟩⟩) blankTree).2
     t.get ["projects".toList, "demo".toList, "a".toList] = none ∧
      t.get ["projects".toList, "demo".toList, "a ".toList] = some (.file [2])) ∧
    ¬ Addressable id 100 (getVirtualPathPrefix none) sample ['/'] "a ".toList := by
  have hopened : Opened blankTree sample.parts := by
    constructor
    · intro q hq
      rw [← List.mem_inits] at hq
      revert q
      decide
    · decide
  have hlisted : sample.listDirectory id ['/'] blankTree =
      (.ok [⟨"a".toList, ⟨false, 1⟩⟩, ⟨"a ".toList, ⟨false, 1⟩⟩], blankTree) := by
    have hsort : sortNames id ["a".toList, "a ".toList] = ["a".toList, "a ".toList] := by
      simp only [sortNames, List.mergeSort]
      simp [List.merge]
    show listAt id sample.parts blankTree = _
    show visibleEntries sample.parts (sortNames id ["a".toList, "a ".toList]) blankTree = _
    rw [hsort]
    rfl
  refine ⟨hlisted, by decide +kernel, ?_⟩
  intro h
  obtain ⟨t', hexisting⟩ := (sample.openExisting_iff blankTree).mpr hopened
  have hlegal : LegalName "a ".toList := by
    constructor <;> decide
  have haddressed := h.listed blankTree t' hexisting _ sample.parts blankTree hlisted
    (by decide) ⟨"a ".toList, ⟨false, 1⟩⟩ (by simp) hlegal (.inl rfl)
  have hsame := congrArg (fun m => (m blankTree).2.get (sample.parts ++ ["a ".toList]))
    haddressed.delete
  exact absurd hsame (by decide +kernel)

end Workdir

end Yuanlei
