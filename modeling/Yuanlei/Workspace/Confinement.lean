import Yuanlei.Workspace.Workdir

/-!
# Which paths a Workdir keeps to

An operation of a Workdir finds its components in three steps: `resolve_path` puts the path
behind the root, `_require_within` checks the result, and `_resolve_path` opens it.  Together they
are one function of the path, and every operation is an action on what this function returns.

Main results:

- `locate_eq_ok`: the components that a path is opened as.
- `workdir_confined`: the operations on a set of paths keep to their entries exactly if
  no path of the set is opened as another one.
-/

namespace Yuanlei

open PosixPath

open PyText (isSpace stripChars)

open FileTree

open FileTree.FsM (raise raiseIf lift withCleanup catchErrno)

open Workspace

namespace Workdir

/-! ## Locating an entry -/

/-- The components that an operation works on. -/
def locate (w : Workdir) (allowRoot : Bool) (path : Text) : Except WorkspaceError (List Name) := do
  let resolved ← w.resolvePath path
  requireWithin resolved w.rootPath allowRoot
  Workspace.resolvePath resolved

variable {path : Text} {allowRoot : Bool} {parts : List Name}

theorem locate_eq_ok (w : Workdir) (h : w.locate allowRoot path = .ok parts) :
    rejects path = false ∧ parts = w.parts ++ openedParts path ∧
      rstrip (lastPart path) ≠ "..".toList ∧ (allowRoot = true ∨ scopeParts path ≠ []) := by
  unfold locate at h
  cases hresolved : w.resolvePath path with
  | error e =>
    rw [hresolved] at h
    cases h
  | ok resolved =>
    have haccepts := (w.resolvePath_eq_ok hresolved).1
    rw [hresolved] at h
    simp only [bind, Except.bind, w.requireWithin_resolved hresolved,
      w.resolvePath_resolved hresolved] at h
    split_ifs at h with hroot hdots
    · refine ⟨haccepts, by simpa using h.symm, hdots, ?_⟩
      by_contra hnot
      push Not at hnot
      exact hroot ⟨hnot.2, by simpa using hnot.1⟩

theorem locate_of_resolved (w : Workdir) {resolved : Text} (allowRoot : Bool)
    (h : w.resolvePath path = .ok resolved) (hroot : allowRoot = true ∨ scopeParts path ≠ []) :
    w.locate allowRoot path = Workspace.resolvePath resolved := by
  have hcheck : ¬ (scopeParts path = [] ∧ allowRoot = false) := by
    rintro ⟨hnil, hfalse⟩
    rcases hroot with htrue | hne
    · rw [htrue] at hfalse
      cases hfalse
    · exact hne hnil
  simp only [locate, h, bind, Except.bind, w.requireWithin_resolved h, if_neg hcheck]

/-! ## Paths that are opened as they read -/

/-- The path is rejected, or it is opened as the components that it names. -/
def Faithful (w : Workdir) (path : Text) : Prop :=
  rejects path ∨ ¬ EndsInSpace (lastPart path) ∨ rstrip (lastPart path) = "..".toList ∨
    '\x00' ∈ path ∨ '\x00' ∈ w.relativePath

variable {x : Char}

theorem mem_scopeText (hx : x ∈ path) (hspace : isSpace x = false) :
    x ∈ scopeText path := by
  have hne : path ≠ [] := List.ne_nil_of_mem hx
  obtain ⟨left, right, hleft, hright, heq⟩ := PyText.exists_append_stripChars path
  have hmem : x ∈ stripChars path := by
    rw [heq] at hx
    rcases List.mem_append.mp hx with hx | hx
    · rw [hleft x hx] at hspace
      cases hspace
    · rcases List.mem_append.mp hx with hx | hx
      · exact hx
      · rw [hright x hx] at hspace
        cases hspace
  have hstripped : stripChars path ≠ [] := List.ne_nil_of_mem hmem
  simpa [scopeText, orText, hne, hstripped] using hmem

theorem hasNull_openedParts (h : '\x00' ∈ path) : HasNull (openedParts path) := by
  have htext := mem_scopeText h (by decide)
  obtain ⟨c, hc, hnull⟩ := exists_mem_components htext (by decide) (by decide)
  have hparts : scopeParts path ≠ [] := List.ne_nil_of_mem hc
  have hmem : c ∈ scopeParts path := hc
  rw [scopeParts_eq_append hparts] at hmem
  rcases List.mem_append.mp hmem with hinit | hlast
  · exact ⟨c, List.mem_append_left _ hinit, hnull⟩
  · rw [List.mem_singleton.mp hlast] at hnull
    have hstripped := mem_rstrip hnull (by decide)
    refine ⟨rstrip (lastPart path), List.mem_append_right _ ?_, hstripped⟩
    have hcounts : counts (rstrip (lastPart path)) := by
      rw [counts_iff]
      refine ⟨List.ne_nil_of_mem hstripped, ?_⟩
      intro heq
      rw [heq] at hstripped
      simp at hstripped
    rw [components_rstrip_lastPart, if_pos hcounts]
    exact List.mem_singleton_self _

theorem hasNull_parts (w : Workdir) (h : '\x00' ∈ w.relativePath) : HasNull w.parts := by
  obtain ⟨c, hc, hnull⟩ := exists_mem_components h (by decide) (by decide)
  exact ⟨c, hc, hnull⟩

variable {t : Tree}

theorem null_not_mem_of_opened (w : Workdir) (h : Opened t w.parts) : '\x00' ∉ w.relativePath := by
  intro hnull
  obtain ⟨part, hpart, hmem⟩ := w.hasNull_parts hnull
  exact h.names part hpart hmem

variable {w : Workdir}

theorem Faithful.located (h : w.Faithful path) (hopened : Opened t w.parts)
    (hlocate : w.locate allowRoot path = .ok parts) :
    (parts = w.parts ++ scopeParts path ∧ (allowRoot = true ∨ scopeParts path ≠ [])) ∨
      ∃ ps, parts = w.parts ++ ps ∧ HasNull ps ∧ ps ≠ [] := by
  obtain ⟨haccepts, rfl, hdots, hroot⟩ := w.locate_eq_ok hlocate
  rcases h with hrejects | hclean | hdots' | hnull | hnull
  · rw [haccepts] at hrejects
    cases hrejects
  · left
    rw [openedParts_of_clean (not_not.mp hclean)]
    exact ⟨rfl, hroot⟩
  · exact absurd hdots' hdots
  · right
    have hopenedNull := hasNull_openedParts hnull
    refine ⟨_, rfl, hopenedNull, ?_⟩
    obtain ⟨part, hpart, -⟩ := hopenedNull
    exact List.ne_nil_of_mem hpart
  · exact absurd hnull (w.null_not_mem_of_opened hopened)

/-! ## Actions on located components -/

/-- The operation changes nothing outside the strict subtree of the root, and it raises or does
what it means. -/
structure Acts {α : Type} (w : Workdir) (run act : Fs α) (t : Tree) : Prop where
  outside : Outside w.parts run t
  acts : (∃ e, (run t).1 = .error e) ∨ run t = act t

variable {α : Type} {run act : Fs α}

theorem Acts.bind_pure {β : Type} (h : Acts w run act t) (f : α → β) :
    Acts w (run >>= fun a => pure (f a)) (act >>= fun a => pure (f a)) t := by
  have hstate : ((run >>= fun a => pure (f a)) t).2 = (run t).2 := by
    rw [FsM.bind_apply]
    cases hrun : run t with
    | mk result t' => cases result <;> rfl
  constructor
  · intro q hq
    rw [hstate]
    exact h.outside q hq
  · rcases h.acts with ⟨e, he⟩ | heq
    · left
      refine ⟨e, ?_⟩
      rw [FsM.bind_apply]
      cases hrun : run t with
      | mk result t' =>
        rw [hrun] at he
        simp only at he
        rw [he]
    · right
      rw [FsM.bind_apply, FsM.bind_apply, heq]

variable {e : Raised WorkspaceError}

theorem acts_of_eq_error (h : run t = (.error e, t)) : Acts w run act t := by
  constructor
  · intro q _
    rw [h]
  · exact .inl ⟨e, by rw [h]⟩

/-- An action on located components keeps to the entry of its path. -/
theorem acts_of_locate (h : w.Faithful path) (hopened : Opened t w.parts)
    {action : List Name → Fs α}
    (houtside : ∀ ps, (allowRoot = true ∨ ps ≠ []) → Outside w.parts (action (w.parts ++ ps)) t)
    (hnull : ∀ parts, HasNull parts → Raises (action parts)) :
    Acts w (lift (w.locate allowRoot path) >>= action) (action (w.parts ++ scopeParts path)) t := by
  cases hlocate : w.locate allowRoot path with
  | error e => exact acts_of_eq_error (e := .app e) rfl
  | ok parts =>
    rw [FsM.lift_ok, FsM.pure_bind]
    rcases h.located hopened hlocate with ⟨rfl, hroot⟩ | ⟨ps, rfl, hps, hne⟩
    · exact ⟨houtside _ hroot, .inr rfl⟩
    · obtain ⟨part, hpart, hmem⟩ := hps
      exact ⟨houtside ps (.inr hne), .inl (hnull _ ⟨part, List.mem_append_right _ hpart, hmem⟩ t)⟩

theorem locate_bind (w : Workdir) (allowRoot : Bool) (path : Text) (action : List Name → Fs α) :
    (do
      let resolved ← lift (w.resolvePath path)
      lift (requireWithin resolved w.rootPath allowRoot)
      let parts ← lift (Workspace.resolvePath resolved)
      action parts) = lift (w.locate allowRoot path) >>= action := by
  simp only [locate, FsM.lift_bind, FsM.bind_assoc]

/-- An operation without `_require_within` works on what the check would accept. -/
theorem locate_bind_unchecked (w : Workdir) (path : Text) (action : List Name → Fs α) :
    (do
      let resolved ← lift (w.resolvePath path)
      let parts ← lift (Workspace.resolvePath resolved)
      action parts) = lift (w.locate true path) >>= action := by
  cases hresolved : w.resolvePath path with
  | error e =>
    simp only [locate, hresolved, bind, Except.bind]
    rfl
  | ok resolved =>
    rw [w.locate_of_resolved true hresolved (.inl rfl)]
    rfl

theorem acts_of_limit {c : Prop} [Decidable c]
    {action : Text → Fs α}
    (h : ¬ c → Acts w (do let resolved ← lift (w.resolvePath path); action resolved) act t) :
    Acts w (do
      let resolved ← lift (w.resolvePath path)
      raiseIf c e
      action resolved) act t := by
  by_cases hc : c
  · cases hresolved : w.resolvePath path with
    | error e' => exact acts_of_eq_error (e := .app e') rfl
    | ok resolved =>
      apply acts_of_eq_error (e := e)
      rw [FsM.lift_ok, FsM.pure_bind, raiseIf, if_pos hc]
      rfl
  · have hcheck : (raiseIf c e : Fs Unit) = pure () := by
      rw [raiseIf, if_neg hc]
    rw [hcheck]
    exact h hc

theorem moveFile_eq (w : Workdir) (sourcePath targetPath : Text) :
    (∃ source target, w.locate false sourcePath = .ok source ∧
        w.locate false targetPath = .ok target ∧
        w.moveFile sourcePath targetPath = moveAt source target) ∨
      ∃ e, w.moveFile sourcePath targetPath = raise e := by
  unfold moveFile moveAuthorizedFile
  cases hsource : w.resolvePath sourcePath with
  | error e => exact .inr ⟨.app e, rfl⟩
  | ok source =>
    cases htarget : w.resolvePath targetPath with
    | error e => exact .inr ⟨.app e, rfl⟩
    | ok target =>
      cases hwithinSource : requireWithin source w.rootPath false with
      | error e => exact .inr ⟨.app e, by simp [hwithinSource]⟩
      | ok _ =>
        cases hwithinTarget : requireWithin target w.rootPath false with
        | error e => exact .inr ⟨.app e, by simp [hwithinSource, hwithinTarget]⟩
        | ok _ =>
          have hlocateSource : w.locate false sourcePath = Workspace.resolvePath source := by
            simp only [locate, hsource, hwithinSource, bind, Except.bind]
          have hlocateTarget : w.locate false targetPath = Workspace.resolvePath target := by
            simp only [locate, htarget, hwithinTarget, bind, Except.bind]
          cases hopenSource : Workspace.resolvePath source with
          | error e =>
            exact .inr ⟨.app e, by simp [hwithinSource, hwithinTarget, hopenSource]⟩
          | ok sourceParts =>
            cases hopenTarget : Workspace.resolvePath target with
            | error e =>
              exact .inr ⟨.app e, by
                simp [hwithinSource, hwithinTarget, hopenSource, hopenTarget]⟩
            | ok targetParts =>
              exact .inl ⟨sourceParts, targetParts, hlocateSource.trans hopenSource,
                hlocateTarget.trans hopenTarget, by
                  simp [hwithinSource, hwithinTarget, hopenSource, hopenTarget]⟩

theorem acts_moveFile {sourcePath targetPath : Text}
    (hsource : w.Faithful sourcePath) (htarget : w.Faithful targetPath) (hopened : Opened t w.parts) :
    Acts w (w.moveFile sourcePath targetPath)
      (moveAt (w.parts ++ scopeParts sourcePath) (w.parts ++ scopeParts targetPath)) t := by
  rcases w.moveFile_eq sourcePath targetPath with
    ⟨source, target, hlocateSource, hlocateTarget, heq⟩ | ⟨e, heq⟩
  · have hplace : ∀ {path parts}, w.Faithful path → w.locate false path = .ok parts →
        ∃ ps, parts = w.parts ++ ps ∧ ps ≠ [] ∧ (ps = scopeParts path ∨ HasNull parts) := by
      intro path parts hfaithful hlocate
      rcases hfaithful.located hopened hlocate with ⟨rfl, hroot⟩ | ⟨ps, rfl, hps, hne⟩
      · exact ⟨_, rfl, hroot.resolve_left (by simp), .inl rfl⟩
      · obtain ⟨part, hpart, hmem⟩ := hps
        exact ⟨ps, rfl, hne, .inr ⟨part, List.mem_append_right _ hpart, hmem⟩⟩
    obtain ⟨ps, rfl, hps, hread⟩ := hplace hsource hlocateSource
    obtain ⟨qs, rfl, hqs, hread'⟩ := hplace htarget hlocateTarget
    rw [heq]
    refine ⟨Within.outside (within_moveAt hps hqs) t, ?_⟩
    rcases hread with rfl | hnull
    · rcases hread' with rfl | hnull
      · exact .inr rfl
      · exact .inl (raises_moveAt (.inr hnull) t)
    · exact .inl (raises_moveAt (.inl hnull) t)
  · rw [heq]
    exact acts_of_eq_error rfl

/-! ## Searching below the root -/

/-- A text of a directory that the search visits: the root, or something behind it. -/
def UnderRoot (w : Workdir) (directory : Text) : Prop :=
  directory = w.rootPath ∨ ∃ rest, directory = w.rootPath ++ '/' :: rest

theorem rstripSlashes_append (w : Workdir) (s : Text) :
    rstripSlashes (w.rootPath ++ s) = w.rootPath ++ rstripSlashes s := by
  have hroot := w.rstripSlashes_rootPath
  unfold rstripSlashes at *
  induction s using List.reverseRecOn with
  | nil => simpa using hroot
  | append_singleton s c ih =>
    rw [← List.append_assoc, List.rdropWhile_concat, List.rdropWhile_concat]
    split_ifs
    · exact ih
    · simp

variable {directory : Text}

theorem UnderRoot.child (h : w.UnderRoot directory)
    (name : Name) : w.UnderRoot (rstripSlashes directory ++ '/' :: name) := by
  rcases h with rfl | ⟨rest, rfl⟩
  · rw [w.rstripSlashes_rootPath]
    exact .inr ⟨name, rfl⟩
  · rw [w.rstripSlashes_append]
    cases hrest : rstripSlashes ('/' :: rest) with
    | nil => exact .inr ⟨name, by simp⟩
    | cons c t =>
      obtain ⟨dropped, hdropped⟩ := List.rdropWhile_prefix (· == '/') ('/' :: rest)
      have hslash : c = '/' := by
        unfold rstripSlashes at hrest
        rw [hrest] at hdropped
        exact (List.cons.inj hdropped).1
      exact .inr ⟨t ++ '/' :: name, by simp [hslash]⟩

theorem UnderRoot.prefix_of_resolved (h : w.UnderRoot directory)
    (hparts : Workspace.resolvePath directory = .ok parts) :
    w.parts <+: parts := by
  have heq : parts = components (stripChars directory) := by
    unfold Workspace.resolvePath at hparts
    simp only at hparts
    split_ifs at hparts
    exact (Except.ok.inj hparts).symm
  rw [heq]
  rcases h with rfl | ⟨rest, rfl⟩
  · rw [rootPath, stripChars_slash, w.rstrip_relativePath, components_slash]
    exact List.prefix_rfl
  · rw [rootPath, List.cons_append, stripChars_slash_append, components_slash,
      components_append_slash]
    exact List.prefix_append _ _

variable (lower : Name → Name)

theorem listBelow_eq (h : w.UnderRoot directory) (maxEntries : Int) :
    WorkdirOp.listBelow lower w directory maxEntries =
      listAuthorizedDirectoryLimited lower directory w.rootPath maxEntries := by
  unfold WorkdirOp.listBelow listAuthorizedDirectoryLimited
  cases hparts : Workspace.resolvePath directory with
  | error e => rfl
  | ok parts =>
    have hprefix := h.prefix_of_resolved hparts
    simp [raiseIf, hprefix]

theorem scanEntries_underRoot (limits : SearchLimits)
    (query : Text) (h : w.UnderRoot directory) (depth : Int)
    (items : List Entry) (s : ScanState) (hs : ∀ d ∈ s.pending, w.UnderRoot d.1) :
    ∀ d ∈ (scanEntries lower limits query directory depth items s).pending, w.UnderRoot d.1 := by
  induction items generalizing s with
  | nil => exact hs
  | cons item items ih =>
    -- The one directory that a step can add lies behind the visited one.
    have hpending : ∀ d ∈ s.pending ++ [(rstripSlashes directory ++ '/' :: item.name, depth + 1)],
        w.UnderRoot d.1 := by
      intro d hd
      rcases List.mem_append.mp hd with hold | hnew
      · exact hs d hold
      · rw [List.mem_singleton.mp hnew]
        exact h.child item.name
    simp only [scanEntries]
    split_ifs
    all_goals first
      | exact hpending
      | exact hs
      | exact ih _ hpending
      | exact ih _ hs

theorem searchLoop_eq (w : Workdir) (limits : SearchLimits) (query : Text)
    (visits : Nat) (pending : List (Text × Int)) (scanned : Int) (results : List Match)
    (h : ∀ d ∈ pending, w.UnderRoot d.1) :
    searchLoop lower (WorkdirOp.listBelow lower w) limits query visits pending scanned results =
      searchLoop lower
        (fun directory => listAuthorizedDirectoryLimited lower directory w.rootPath) limits query
        visits pending scanned results := by
  induction visits generalizing pending scanned results with
  | zero => rfl
  | succ visits ih =>
    cases pending with
    | nil => rfl
    | cons d pending =>
      obtain ⟨directory, depth⟩ := d
      have hdirectory := h (directory, depth) (List.mem_cons_self ..)
      have hrest : ∀ d ∈ pending, w.UnderRoot d.1 := fun d hd =>
        h d (List.mem_cons_of_mem _ hd)
      simp only [searchLoop, listBelow_eq lower hdirectory]
      split_ifs
      · congr 1
        funext listed
        split_ifs
        · rfl
        · exact ih _ _ _ (scanEntries_underRoot lower limits query hdirectory depth _ _ hrest)
      · rfl

variable {S : Path → Prop}

theorem within_searchLoop {list : Text → Int → Fs (List Entry × Int)}
    (hlist : ∀ d n, Within S (list d n))
    (limits : SearchLimits) (query : Text) (visits : Nat) (pending : List (Text × Int))
    (scanned : Int) (results : List Match) :
    Within S (searchLoop lower list limits query visits pending scanned results) := by
  induction visits generalizing pending scanned results with
  | zero => exact within_pure _
  | succ visits ih =>
    cases pending with
    | nil => exact within_pure _
    | cons d pending =>
      simp only [searchLoop]
      apply within_ite
      · apply within_bind (hlist _ _)
        intro listed
        apply within_ite
        · exact within_pure _
        · exact ih _ _ _
      · exact within_pure _

theorem within_search (w : Workdir) (query : Text)
    (limits : SearchLimits) : Within S (w.search lower query limits) := by
  apply within_bind
  · apply within_searchLoop
    intro directory maxEntries
    apply within_bind (within_raiseIf _ _)
    intro _
    apply within_bind (within_lift _)
    intro _
    apply within_bind (within_lift _)
    intro parts
    exact within_listLimitedAt lower parts maxEntries
  · intro results
    exact within_lift _

theorem search_eq (w : Workdir) (query : Text) (limits : SearchLimits) :
    w.search lower query limits =
      (do
        let results ← searchWith lower (WorkdirOp.listBelow lower w) w.rootPath query limits
        lift (results.mapM w.scopeMatch)) := by
  have hloop := searchLoop_eq lower w limits (lower (stripChars query))
    limits.maxDirectories.toNat [(w.rootPath, 0)] 0 [] (by simp [UnderRoot])
  unfold search searchAuthorizedTree searchWith
  rw [hloop]

/-! ## Every operation keeps to its entry -/

section Operations

variable {lower : Name → Name} {stack : Nat} {w : Workdir} {t : Tree} {op : WorkdirOp}

theorem acts_run (hpaths : ∀ path ∈ op.paths, w.Faithful path)
    (hopened : Opened t w.parts) (hfresh : ∀ tempName ∈ op.tempNames, Fresh t tempName) :
    Acts w (op.run lower stack w) (op.act lower stack w) t := by
  have hroot := w.parts_ne_nil
  cases op with
  | listDirectory path =>
    apply Acts.bind_pure
    rw [listDirectory]
    simp only [listAuthorizedDirectory, locate_bind]
    exact acts_of_locate (hpaths path (by simp [WorkdirOp.paths])) hopened
      (fun ps _ => Within.outside (within_listAt lower _) t) fun _ h => raises_listAt lower h
  | search query limits =>
    have heq : WorkdirOp.run lower stack w (.search query limits) =
        WorkdirOp.act lower stack w (.search query limits) := by
      simp only [WorkdirOp.run, WorkdirOp.act, search_eq, FsM.bind_assoc]
    refine ⟨?_, .inr (by rw [heq])⟩
    apply Within.outside
    apply within_bind (within_search lower w query limits)
    intro results
    exact within_pure _
  | readFile path maxBytes =>
    apply Acts.bind_pure
    rw [readFile]
    apply acts_of_limit
    intro _
    rw [locate_bind_unchecked]
    exact acts_of_locate (hpaths path (by simp [WorkdirOp.paths])) hopened
      (fun ps _ => Within.outside (within_readAt _ maxBytes) t) fun _ h => raises_readAt h maxBytes
  | readFilePrefix path maxBytes =>
    apply Acts.bind_pure
    rw [readFilePrefix]
    apply acts_of_limit
    intro _
    rw [locate_bind_unchecked]
    exact acts_of_locate (hpaths path (by simp [WorkdirOp.paths])) hopened
      (fun ps _ => Within.outside (within_readPrefixAt _ maxBytes) t)
      fun _ h => raises_readPrefixAt h maxBytes
  | writeFile path content =>
    apply Acts.bind_pure
    rw [writeFile]
    simp only [writeAuthorizedFile, locate_bind_unchecked]
    exact acts_of_locate (hpaths path (by simp [WorkdirOp.paths])) hopened
      (fun ps _ => outside_writeAt hopened hroot content) fun _ h => raises_writeAt h content
  | replaceFile path content tempName =>
    have htemp := hfresh tempName (by simp [WorkdirOp.tempNames])
    apply Acts.bind_pure
    rw [replaceFile]
    simp only [replaceAuthorizedFile, locate_bind_unchecked]
    exact acts_of_locate (hpaths path (by simp [WorkdirOp.paths])) hopened
      (fun ps _ => outside_replaceAt hopened hroot content htemp)
      fun _ h => raises_replaceAt h content tempName
  | createFile path content tempName =>
    have htemp := hfresh tempName (by simp [WorkdirOp.tempNames])
    apply Acts.bind_pure
    rw [createFile]
    simp only [createAuthorizedFile, locate_bind_unchecked]
    exact acts_of_locate (hpaths path (by simp [WorkdirOp.paths])) hopened
      (fun ps _ => outside_createAt hopened hroot content htemp)
      fun _ h => raises_createAt h content tempName
  | moveFile sourcePath targetPath =>
    apply Acts.bind_pure
    exact acts_moveFile (hpaths sourcePath (by simp [WorkdirOp.paths]))
      (hpaths targetPath (by simp [WorkdirOp.paths])) hopened
  | stat path =>
    apply Acts.bind_pure
    rw [Workdir.stat]
    simp only [statAuthorizedPath, locate_bind]
    exact acts_of_locate (hpaths path (by simp [WorkdirOp.paths])) hopened
      (fun ps _ => Within.outside (within_statAt _) t) fun _ h => raises_statAt h
  | copyFileToPath path maxBytes =>
    apply Acts.bind_pure
    rw [copyFileToPath]
    apply acts_of_limit
    intro _
    rw [locate_bind_unchecked]
    exact acts_of_locate (hpaths path (by simp [WorkdirOp.paths])) hopened
      (fun ps _ => Within.outside (within_readAt _ maxBytes) t) fun _ h => raises_readAt h maxBytes
  | copyFileFromPath path source overwrite tempName =>
    have htemp := hfresh tempName (by simp [WorkdirOp.tempNames])
    apply Acts.bind_pure
    rw [copyFileFromPath]
    simp only [uploadAuthorizedFileFromPath, locate_bind_unchecked]
    exact acts_of_locate (hpaths path (by simp [WorkdirOp.paths])) hopened
      (fun ps _ => outside_uploadAt hopened hroot source overwrite true htemp)
      fun _ h => raises_uploadAt h source overwrite true tempName
  | createDirectory parentPath name =>
    apply Acts.bind_pure
    rw [createDirectory]
    apply acts_of_limit
    intro _
    rw [locate_bind]
    exact acts_of_locate (hpaths parentPath (by simp [WorkdirOp.paths])) hopened
      (fun ps _ => Within.outside (within_mkdirAt name) t) fun _ h => raises_mkdirAt h name
  | delete path =>
    apply Acts.bind_pure
    rw [delete]
    simp only [deleteAuthorizedPath, locate_bind]
    exact acts_of_locate (hpaths path (by simp [WorkdirOp.paths])) hopened
      (fun ps hps => Within.outside (within_deleteAt stack (hps.resolve_left (by simp)) false) t)
      fun _ h => raises_deleteAt stack h false

theorem raises_at_root (hop : op.changesEntry = true) {path : Text}
    (hpath : path ∈ op.paths) (hroot : scopeParts path = []) (hopened : Opened t w.parts)
    (hfresh : ∀ tempName ∈ op.tempNames, Fresh t tempName) :
    ∃ e, (op.run lower stack w t).1 = .error e := by
  have hlocateFalse : ∀ parts, w.locate false path ≠ .ok parts := by
    intro parts hlocate
    obtain ⟨-, -, -, hne⟩ := w.locate_eq_ok hlocate
    exact (hne.resolve_left (by simp)) hroot
  have hlocateTrue : ∀ parts, w.locate true path = .ok parts → parts = w.parts := by
    intro parts hlocate
    obtain ⟨-, rfl, -⟩ := w.locate_eq_ok hlocate
    simp [openedParts, lastPart, hroot, rstrip]
  obtain ⟨dir, name, hconcat⟩ := exists_eq_concat w.parts_ne_nil
  -- An action that fails on the root fails on what the path is located as.
  have hfails : ∀ {action : List Name → Fs Metadata}, Fails (action w.parts) t →
      ∃ e, ((lift (w.locate true path) >>= action) t).1 = .error e := by
    intro action hfails
    cases hlocate : w.locate true path with
    | error e => exact ⟨.app e, rfl⟩
    | ok parts =>
      rw [hlocateTrue parts hlocate]
      exact hfails.1
  have hpure : ∀ {α β : Type} {m : Fs α} (f : α → β), (∃ e, (m t).1 = .error e) →
      ∃ e, ((m >>= fun a => pure (f a)) t).1 = .error e := by
    rintro α β m f ⟨e, he⟩
    refine ⟨e, ?_⟩
    rw [FsM.bind_apply]
    cases hrun : m t with
    | mk result t' =>
      rw [hrun] at he
      simp only at he
      rw [he]
  cases op with
  | replaceFile path' content tempName =>
    obtain rfl : path = path' := by simpa [WorkdirOp.paths] using hpath
    have htemp := hfresh tempName (by simp [WorkdirOp.tempNames])
    apply hpure
    rw [replaceFile]
    simp only [replaceAuthorizedFile, locate_bind_unchecked]
    apply hfails
    rw [hconcat] at hopened ⊢
    exact fails_replaceAt hopened content (htemp dir)
  | createFile path' content tempName =>
    obtain rfl : path = path' := by simpa [WorkdirOp.paths] using hpath
    have htemp := hfresh tempName (by simp [WorkdirOp.tempNames])
    apply hpure
    rw [createFile]
    simp only [createAuthorizedFile, locate_bind_unchecked]
    apply hfails
    rw [hconcat] at hopened ⊢
    exact fails_createAt hopened content (htemp dir)
  | moveFile sourcePath targetPath =>
    apply hpure
    rcases w.moveFile_eq sourcePath targetPath with
      ⟨source, target, hsource, htarget, -⟩ | ⟨e, heq⟩
    · rcases List.mem_cons.mp hpath with rfl | hpath
      · exact absurd hsource (hlocateFalse source)
      · rw [List.mem_singleton.mp hpath] at hlocateFalse
        exact absurd htarget (hlocateFalse target)
    · exact ⟨e, by rw [heq]; rfl⟩
  | delete path' =>
    obtain rfl : path = path' := by simpa [WorkdirOp.paths] using hpath
    apply hpure (fun _ => Outcome.done)
    rw [delete]
    simp only [deleteAuthorizedPath, locate_bind]
    cases hlocate : w.locate false path with
    | error e => exact ⟨.app e, rfl⟩
    | ok parts => exact absurd hlocate (hlocateFalse parts)
  | _ => cases hop

end Operations

/-! ## Opening a Workdir -/

theorem stat_root_eq (w : Workdir) : w.stat ['/'] = statAt w.parts := by
  have hresolved : w.resolvePath ['/'] = .ok w.rootPath := by
    have haccepts : rejects ['/'] = false := by decide
    have hposix : asPosix (scopeText ['/']) = ['/'] := by decide
    simp [resolvePath, haccepts, hposix]
  have hopened : openedParts ['/'] = [] := by decide
  have hlast : lastPart ['/'] = [] := by decide
  have hparts : Workspace.resolvePath w.rootPath = .ok w.parts := by
    rw [w.resolvePath_resolved hresolved, if_neg (by rw [hlast]; decide), hopened, List.append_nil]
  rw [stat]
  simp only [statAuthorizedPath, locate_bind,
    w.locate_of_resolved true hresolved (.inl rfl), hparts]
  rfl

theorem openExisting_iff (w : Workdir) (t : Tree) :
    (∃ t', w.openExisting t = (.ok (), t')) ↔ Opened t w.parts := by
  rw [← statAt_isDir_iff w.parts_ne_nil, openExisting, stat_root_eq]
  constructor
  · rintro ⟨t', hrun⟩
    rw [FsM.bind_apply] at hrun
    split at hrun
    · rename_i metadata u hstat
      refine ⟨metadata, u, hstat, ?_⟩
      by_contra hdir
      rw [raiseIf, if_pos (by simpa using hdir)] at hrun
      cases hrun
    · cases hrun
  · rintro ⟨metadata, t', hstat, hdir⟩
    refine ⟨t', ?_⟩
    rw [FsM.bind_apply, hstat]
    simp [raiseIf, hdir]

/-! ## Confinement -/

/-- The operation keeps to the entry of its path, on every tree with the Workdir in it: it changes
nothing outside the strict subtree of the root, it raises or does what it means, and it refuses
the root where the entry of its path would change. -/
def Confined (lower : Name → Name) (stack : Nat) (w : Workdir) (op : WorkdirOp) : Prop :=
  ∀ t t', w.openExisting t = (.ok (), t') → (∀ tempName ∈ op.tempNames, Fresh t tempName) →
    Acts w (op.run lower stack w) (op.act lower stack w) t ∧
      (op.changesEntry = true → ∀ path ∈ op.paths, scopeParts path = [] →
        ∃ e, (op.run lower stack w t).1 = .error e)

theorem mem_of_mem_openedParts {part : Text} (hpart : part ∈ openedParts path) (hx : x ∈ part)
    (hslash : x ≠ '/') : x ∈ path := by
  have htext : x ∈ scopeText path := by
    rcases List.mem_append.mp hpart with hinit | hlast
    · exact mem_of_mem_components (List.mem_of_mem_dropLast hinit) hx
    · have hmem := mem_of_mem_components hlast hx
      have hlastPart : x ∈ lastPart path := (List.rdropWhile_prefix isSpace _).subset hmem
      by_cases hparts : scopeParts path = []
      · simp [lastPart, hparts] at hlastPart
      · rw [lastPart_eq_getLast hparts] at hlastPart
        exact mem_of_mem_components (List.getLast_mem hparts) hlastPart
  have hor : ∀ {a : Text}, x ∈ orText a ['/'] → x ∈ a := by
    intro a ha
    unfold orText at ha
    split_ifs at ha
    · exact absurd (List.mem_singleton.mp ha) hslash
    · exact ha
  obtain ⟨left, right, -, -, heq⟩ := PyText.exists_append_stripChars (orText path ['/'])
  have hstripped : x ∈ stripChars (orText path ['/']) := hor htext
  apply hor
  rw [heq]
  simp [hstripped]

theorem not_prefix_openedParts (h : EndsInSpace (lastPart path)) :
    ¬ scopeParts path <+: openedParts path := by
  have hparts : scopeParts path ≠ [] := by
    intro hnil
    exact h (by simp [lastPart, hnil, rstrip])
  intro hprefix
  rw [openedParts, components_rstrip_lastPart] at hprefix
  conv at hprefix => lhs; rw [scopeParts_eq_append hparts]
  have hlast := (List.prefix_append_right_inj _).mp hprefix
  split_ifs at hlast
  · have heq : lastPart path = rstrip (lastPart path) := by simpa using hlast
    exact h heq.symm
  · simp at hlast

/-- A path that is opened as another one is found there. -/
theorem not_confined_stat (stack : Nat) (h : ¬ w.Faithful path) : ¬ Confined lower stack w
    (.stat path) := by
  unfold Faithful at h
  push Not at h
  obtain ⟨haccepts, hspace, hdots, hnull, hnullRoot⟩ := h
  obtain ⟨resolved, hresolved⟩ : ∃ resolved, w.resolvePath path = .ok resolved := by
    have haccepts' : rejects path = false := by simpa using haccepts
    unfold resolvePath
    rw [haccepts']
    simp only [Bool.false_eq_true, if_false]
    split_ifs
    · exact ⟨_, rfl⟩
    · exact ⟨_, rfl⟩
  have hlocate : w.locate true path = .ok (w.parts ++ openedParts path) := by
    rw [w.locate_of_resolved true hresolved (.inl rfl), w.resolvePath_resolved hresolved,
      if_neg hdots]
  have hrun : WorkdirOp.run lower stack w (.stat path) =
      statAt (w.parts ++ openedParts path) >>= fun metadata => pure (.metadata metadata) := by
    simp only [WorkdirOp.run, stat, statAuthorizedPath, locate_bind, hlocate]
    rfl
  -- On the tree of what is opened, the path that is meant does not exist.
  have hopened : Opened (chain (w.parts ++ openedParts path)) (w.parts ++ openedParts path) := by
    constructor
    · intro q hq
      rw [get_chain, if_pos hq]
    · intro name hname hmem
      rcases List.mem_append.mp hname with hname | hname
      · exact hnullRoot (mem_of_mem_components hname hmem)
      · exact hnull (mem_of_mem_openedParts hname hmem (by decide))
  obtain ⟨t', hexisting⟩ := (w.openExisting_iff _).mpr (hopened.of_prefix (List.prefix_append _ _))
  have hne : w.parts ++ openedParts path ≠ [] := by simp [w.parts_ne_nil]
  obtain ⟨metadata, t₁, hstat, hdir⟩ := (statAt_isDir_iff hne).mpr hopened
  have hresult : WorkdirOp.run lower stack w (.stat path) (chain (w.parts ++ openedParts path)) =
      (.ok (.metadata metadata), t₁) := by
    rw [hrun, FsM.bind_apply, hstat]
    rfl
  intro hconfined
  obtain ⟨⟨-, hacts⟩, -⟩ := hconfined _ t' hexisting (by simp [WorkdirOp.tempNames])
  rw [hresult] at hacts
  rcases hacts with ⟨e, he⟩ | hact
  · cases he
  · have hmeant : statAt (w.parts ++ scopeParts path) (chain (w.parts ++ openedParts path)) =
        (.ok metadata, t₁) := by
      rw [WorkdirOp.act, FsM.bind_apply] at hact
      cases hstat' : statAt (w.parts ++ scopeParts path) (chain (w.parts ++ openedParts path)) with
      | mk result t₂ =>
        rw [hstat'] at hact
        cases result with
        | error e => cases hact
        | ok found =>
          cases hact
          rfl
    have hthere := (statAt_isDir_iff (by simp [w.parts_ne_nil])).mp ⟨metadata, t₁, hmeant, hdir⟩
    have hget := hthere.directories _ List.prefix_rfl
    rw [get_chain] at hget
    split_ifs at hget with hprefix
    exact not_prefix_openedParts hspace ((List.prefix_append_right_inj _).mp hprefix)

/-- Every operation on the given paths keeps to its entry exactly if every path is rejected, or
is opened as the components that it names. -/
theorem workdir_confined (lower : Name → Name) (stack : Nat) (w : Workdir) (paths : Set Text) :
    (∀ op : WorkdirOp, (∀ path ∈ op.paths, path ∈ paths) → Confined lower stack w op) ↔
      ∀ path ∈ paths, w.Faithful path := by
  constructor
  · intro h path hpath
    by_contra hfaithful
    refine not_confined_stat lower stack hfaithful (h (.stat path) ?_)
    intro path' hpath'
    rw [List.mem_singleton.mp hpath']
    exact hpath
  · intro h op hop t t' hopen hfresh
    have hopened := (w.openExisting_iff t).mp ⟨t', hopen⟩
    refine ⟨acts_run (fun path hpath => h path (hop path hpath)) hopened hfresh, ?_⟩
    intro hchanges path hpath hroot
    exact raises_at_root hchanges hpath hroot hopened hfresh

/-- The Workdir of a project. -/
def sample : Workdir where
  workdirPath := "projects/demo".toList
  relativePath := "projects/demo".toList
  normalized := by decide

/-- A Workspace with the project and one file in it. -/
def sampleTree : Tree where
  rows :=
    [([], .directory), (["projects".toList], .directory),
     (["projects".toList, "demo".toList], .directory),
     (["projects".toList, "demo".toList, "notes.md".toList], .file [])]
  nodupKeys := by decide

/-- Deleting a slash, a blank and a slash deletes the Workdir itself. -/
theorem delete_blank_not_confined : ¬ Confined id 100 sample (.delete "/ /".toList) := by
  have hopened : Opened sampleTree sample.parts := by
    constructor
    · intro q hq
      rw [← List.mem_inits] at hq
      revert q
      decide
    · decide
  obtain ⟨t', hexisting⟩ := (sample.openExisting_iff sampleTree).mpr hopened
  intro hconfined
  obtain ⟨hacts, -⟩ := hconfined sampleTree t' hexisting (by simp [WorkdirOp.tempNames])
  have hroot : ¬ Below sample.parts sample.parts := by
    rintro ⟨name, rest, heq⟩
    have hlength := congrArg List.length heq
    simp at hlength
  have hkept := hacts.outside sample.parts hroot
  have hgone : (WorkdirOp.run id 100 sample (.delete "/ /".toList) sampleTree).2.get
      sample.parts = none := by
    decide +kernel
  have hthere := hopened.directories sample.parts List.prefix_rfl
  rw [hgone, hthere] at hkept
  cases hkept

end Workdir

end Yuanlei
