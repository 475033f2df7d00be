import Yuanlei.Workspace.Filesystem

/-!
# What the file operations can change

An action on components below a root changes entries below this root only.  On the root itself the
actions that make or replace a file raise, because the root is a directory, and leave the tree as
it was.

Main results:

- `outside_createAt`, `outside_uploadAt` and their like: no action changes an entry
  outside the strict subtree of the root.
- `raises_statAt` and their like: an action raises on a component with a null character.
-/

namespace Yuanlei

open FileTree

open FileTree.FsM (raise raiseIf lift withCleanup catchErrno)

namespace Workspace

/-- The strict subtree of a root. -/
def Below (root q : Path) : Prop :=
  ∃ name rest, q = root ++ name :: rest

/-- The root and the entries on the way to it are directories with names that can be given to a
call. -/
structure Opened (t : Tree) (root : Path) : Prop where
  directories : ∀ q, q <+: root → t.get q = some .directory
  names : ∀ name ∈ root, '\x00' ∉ name

/-- The computation leaves the entries outside the strict subtree of the root as they are. -/
def Outside {α : Type} (root : Path) (m : Fs α) (t : Tree) : Prop :=
  ∀ q, ¬ Below root q → (m t).2.get q = t.get q

theorem below_append_name (root : Path) (ps : List Name) (name : Name) :
    Below root (root ++ ps ++ [name]) := by
  cases ps with
  | nil => exact ⟨name, [], by simp⟩
  | cons p ps => exact ⟨p, ps ++ [name], by simp⟩

variable {root : Path}

theorem Below.append {q : Path} (h : Below root q) (rest : List Name) : Below root (q ++ rest) := by
  obtain ⟨name, rest', rfl⟩ := h
  exact ⟨name, rest' ++ rest, by simp⟩

theorem below_dropLast_append {ps : List Name} (hps : ps ≠ []) (name : Name) :
    Below root ((root ++ ps).dropLast ++ [name]) := by
  rw [List.dropLast_append_of_ne_nil hps]
  exact below_append_name root ps.dropLast name

/-! ## Opening -/

variable {S : Path → Prop}

theorem within_openRoot : Within S openRoot := by
  apply within_bind (within_lookup _)
  intro found
  cases found with
  | none => exact within_raise _
  | some node =>
    cases node with
    | directory => exact within_pure _
    | file | symlink | special => exact within_raise _

theorem within_openFrom_false (dir : Path) (parts : List Name) :
    Within S (openFrom false dir parts) := by
  induction parts generalizing dir with
  | nil => exact within_pure _
  | cons part rest ih =>
    apply within_bind (m := makeMissing false dir part) (within_pure _)
    intro _
    apply within_bind (within_openDirectory dir part)
    intro _
    exact ih (dir ++ [part])

theorem within_openParts_false (parts : List Name) : Within S (openParts parts false) := by
  apply within_catchErrno .loop
  · apply within_bind within_openRoot
    intro _
    exact within_openFrom_false [] parts
  · exact within_raise _

/-- Missing directories are made below the directory that the loop starts from. -/
theorem within_openFrom_true (root dir : Path) (parts : List Name)
    (hdir : dir = root ∨ Below root dir) : Within (Below root) (openFrom true dir parts) := by
  induction parts generalizing dir with
  | nil => exact within_pure _
  | cons part rest ih =>
    have hbelow : Below root (dir ++ [part]) := by
      rcases hdir with rfl | hdir
      · exact ⟨part, [], rfl⟩
      · exact hdir.append [part]
    apply within_bind
    · exact within_catchErrno .entryExists (within_create hbelow .directory) (within_pure _)
    · intro _
      apply within_bind (within_openDirectory dir part)
      intro _
      exact ih (dir ++ [part]) (.inr hbelow)

variable (createMissing : Bool)

theorem returns_openFrom (dir : Path) (parts : List Name) :
    Returns (· = dir ++ parts) (openFrom createMissing dir parts) := by
  induction parts generalizing dir with
  | nil =>
    intro t a t' hrun
    cases hrun
    simp
  | cons part rest ih =>
    apply returns_bind
    intro _
    apply returns_bind
    intro _
    have hrest := ih (dir ++ [part])
    rw [List.append_assoc] at hrest
    exact hrest

variable {α : Type}

theorem returns_catchErrno_raise {P : α → Prop} {m : Fs α} (h : Returns P m)
    (errno : Errno) (e : Raised WorkspaceError) :
    Returns P (catchErrno m errno (raise e)) := by
  intro t a t' hrun
  unfold catchErrno at hrun
  split at hrun
  · split_ifs at hrun <;> cases hrun
  · rename_i result u _ hm
    rw [hrun] at hm
    exact h t a t' hm

theorem returns_openParts (parts : List Name) (createMissing : Bool) :
    Returns (· = parts) (openParts parts createMissing) := by
  apply returns_catchErrno_raise
  apply returns_bind
  simpa using returns_openFrom createMissing [] parts

theorem returns_lastName (parts : List Name) :
    Returns (fun name => parts.getLast? = some name) (lastName parts) := by
  intro t name t' hrun
  unfold lastName at hrun
  cases hlast : parts.getLast? with
  | none =>
    rw [hlast] at hrun
    cases hrun
  | some last =>
    rw [hlast] at hrun
    cases hrun
    rfl

theorem within_lastName (parts : List Name) : Within S (lastName parts) := by
  unfold lastName
  split
  · exact within_raise _
  · exact within_pure _

variable {parts : List Name}

theorem within_inParent {f : Path → Name → Fs α}
    (hf : ∀ name, Within S (f parts.dropLast name)) : Within S (inParent parts false f) := by
  apply within_bind (within_raiseIf _ _)
  intro _
  apply within_bind_of (within_openParts_false _) (returns_openParts _ false)
  rintro dir rfl
  apply within_bind (within_lastName parts)
  intro name
  exact hf name

theorem within_openRegularFile (parts : List Name) (writable : Bool) :
    Within S (openRegularFile parts writable) := by
  apply within_inParent
  intro name
  apply within_bind
  · exact within_catchErrno .loop (within_openFile _ name writable) (within_raise _)
  · intro node
    cases node with
    | file content => exact within_pure _
    | directory | symlink | special => exact within_raise _

/-! ## Actions that only read -/

section Readers

variable {S : Path → Prop}

theorem within_visibleEntries (dir : Path) (names : List Name) :
    Within S (visibleEntries dir names) := by
  induction names with
  | nil => exact within_pure _
  | cons name names ih =>
    apply within_bind (within_stat dir name)
    intro node
    apply within_bind ih
    intro entries
    cases node <;> exact within_pure _

variable (lower : Name → Name)

theorem within_listAt (parts : List Name) :
    Within S (listAt lower parts) := by
  apply within_bind (within_openParts_false _)
  intro dir
  apply within_bind (within_listNames dir)
  intro names
  exact within_visibleEntries dir _

theorem within_listLimitedAt (parts : List Name) (maxEntries : Int) :
    Within S (listLimitedAt lower parts maxEntries) := by
  apply within_bind (within_openParts_false _)
  intro dir
  apply within_bind (within_listNames dir)
  intro names
  apply within_bind (within_visibleEntries dir _)
  intro entries
  exact within_pure _

theorem within_statParts (parts : List Name) : Within S (statParts parts) := by
  unfold statParts
  split
  · apply within_bind (within_lookup _)
    intro found
    cases found with
    | none => exact within_raise _
    | some node => exact within_pure _
  · rename_i name _
    apply within_bind (within_openParts_false _)
    intro dir
    exact within_stat dir name

theorem within_statAt (parts : List Name) : Within S (statAt parts) := by
  apply within_bind (within_statParts parts)
  · intro node
    cases node with
    | symlink => exact within_ite (within_raise _) (within_raise _)
    | special => exact within_raise _
    | directory | file => exact within_pure _

theorem within_readAt (parts : List Name) (maxBytes : Int) : Within S (readAt parts maxBytes) := by
  apply within_bind (within_openRegularFile parts false)
  intro found
  apply within_bind (within_raiseIf _ _)
  intro _
  exact within_pure _

theorem within_readPrefixAt (parts : List Name) (maxBytes : Int) :
    Within S (readPrefixAt parts maxBytes) := by
  apply within_bind (within_openRegularFile parts false)
  intro found
  exact within_pure _

end Readers

/-! ## Actions below the root -/

section Writers

variable {root : Path} {ps : List Name} {α : Type}

theorem returns_inParent {P : α → Prop} {parts : List Name} {createMissing : Bool}
    {f : Path → Name → Fs α} (hf : ∀ name, Returns P (f parts.dropLast name)) :
    Returns P (inParent parts createMissing f) := by
  apply returns_bind
  intro _ t a t' hrun
  rw [FsM.bind_apply] at hrun
  split at hrun
  · rename_i dir u hopen
    obtain rfl := returns_openParts parts.dropLast createMissing _ _ _ hopen
    exact returns_bind hf u a t' hrun
  · cases hrun

theorem returns_openRegularFile (parts : List Name) (writable : Bool) :
    Returns (fun found => found.1 = parts.dropLast) (openRegularFile parts writable) := by
  apply returns_inParent
  intro name
  apply returns_bind
  intro node t found t' hrun
  cases node <;> cases hrun
  rfl

theorem within_writeAt (hps : ps ≠ []) (content : List UInt8) :
    Within (Below root) (writeAt (root ++ ps) content) := by
  apply within_bind_of (within_openRegularFile _ true) (returns_openRegularFile _ true)
  rintro ⟨dir, name, old⟩ rfl
  apply within_bind (within_put (below_dropLast_append hps name) _)
  intro _
  exact within_pure _

variable {dir : Path} {tempName : Name}

theorem within_unlinkTemp (h : Below root (dir ++ [tempName])) :
    Within (Below root) (unlinkTemp dir tempName) :=
  within_catchErrno .noEntry (within_unlink h) (within_pure _)

theorem within_writeTemp (h : Below root (dir ++ [tempName]))
    (content : List UInt8) : Within (Below root) (writeTemp dir tempName content) := by
  apply within_bind (within_create h _)
  intro _
  exact within_put h _

variable {S : Path → Prop}

theorem within_statOrNone (dir : Path) (name : Name) :
    Within S (statOrNone dir name) := by
  apply within_catchErrno .noEntry
  · apply within_bind (within_stat dir name)
    intro node
    exact within_pure _
  · exact within_pure _

theorem within_replaceAt (hps : ps ≠ []) (content : List UInt8) (tempName : Name) :
    Within (Below root) (replaceAt (root ++ ps) content tempName) := by
  apply within_inParent
  intro name
  have hname : Below root ((root ++ ps).dropLast ++ [name]) :=
    below_dropLast_append hps name
  have htemp : Below root ((root ++ ps).dropLast ++ [tempName]) :=
    below_dropLast_append hps tempName
  have hwrite : Within (Below root) (do
      writeTemp (root ++ ps).dropLast tempName content
      rename (root ++ ps).dropLast tempName name
      pure (metadataFromStat (.file content))) := by
    apply within_bind (within_writeTemp htemp content)
    intro _
    apply within_bind (within_rename htemp hname)
    intro _
    exact within_pure _
  refine within_withCleanup ?_ (within_unlinkTemp htemp)
  apply within_bind (within_statOrNone _ name)
  intro node
  cases node with
  | none => exact hwrite
  | some node =>
    cases node with
    | file old => exact hwrite
    | directory | symlink | special => exact within_raise _

theorem within_createAt (hps : ps ≠ []) (content : List UInt8) (tempName : Name) :
    Within (Below root) (createAt (root ++ ps) content tempName) := by
  apply within_inParent
  intro name
  have hname : Below root ((root ++ ps).dropLast ++ [name]) :=
    below_dropLast_append hps name
  have htemp : Below root ((root ++ ps).dropLast ++ [tempName]) :=
    below_dropLast_append hps tempName
  refine within_withCleanup ?_ (within_unlinkTemp htemp)
  apply within_bind (within_writeTemp htemp content)
  intro _
  apply within_bind (within_link hname)
  intro _
  exact within_pure _

theorem within_mkdirAt (name : Name) : Within (Below root) (mkdirAt (root ++ ps) name) := by
  apply within_bind_of (within_openParts_false _) (returns_openParts _ false)
  rintro dir rfl
  apply within_bind (within_create (below_append_name root ps name) _)
  intro _
  apply within_bind (within_stat _ _)
  intro node
  exact within_pure _

theorem within_moveAt {qs : List Name} (hps : ps ≠ []) (hqs : qs ≠ []) :
    Within (Below root) (moveAt (root ++ ps) (root ++ qs)) := by
  apply within_bind_of (within_openParts_false _) (returns_openParts _ false)
  rintro sourceDir rfl
  apply within_bind_of (within_openParts_false _) (returns_openParts _ false)
  rintro targetDir rfl
  apply within_bind (within_lastName _)
  intro sourceName
  apply within_bind (within_stat _ _)
  intro node
  cases node with
  | directory | symlink | special => exact within_raise _
  | file content =>
    apply within_bind (within_lastName _)
    intro targetName
    have hsource : Below root ((root ++ ps).dropLast ++ [cString sourceName]) :=
      below_dropLast_append hps (cString sourceName)
    have htarget : Below root ((root ++ qs).dropLast ++ [cString targetName]) :=
      below_dropLast_append hqs (cString targetName)
    apply within_bind (within_renameat2 hsource htarget)
    intro _
    apply within_bind (within_stat _ _)
    intro moved
    cases moved with
    | file content => exact within_pure _
    | directory | symlink | special =>
      apply within_bind (within_renameat2 htarget hsource)
      intro _
      exact within_raise _

theorem within_forM {f : α → Fs Unit} (h : ∀ a, Within S (f a))
    (as : List α) : Within S (as.forM f) := by
  induction as with
  | nil => exact within_pure _
  | cons a as ih =>
    exact within_bind (h a) fun _ => ih

theorem within_removeEntry (unlinkSymlinks : Bool) (depth : Nat) {name : Name}
    (h : Below root (dir ++ [name])) :
    Within (Below root) (removeEntry unlinkSymlinks depth dir name) := by
  induction depth generalizing dir name with
  | zero => exact within_raise _
  | succ depth ih =>
    apply within_bind (within_stat dir name)
    intro node
    cases node with
    | symlink => exact within_ite (within_unlink h) (within_raise _)
    | special => exact within_raise _
    | file content => exact within_unlink h
    | directory =>
      apply within_bind (within_openDirectory dir name)
      intro _
      apply within_bind (within_listNames _)
      intro names
      apply within_bind (within_forM (fun child => ih (h.append [child])) names)
      intro _
      exact within_rmdir h

theorem within_deleteAt (stack : Nat) (hps : ps ≠ []) (unlinkSymlinks : Bool) :
    Within (Below root) (deleteAt stack (root ++ ps) unlinkSymlinks) := by
  apply within_bind_of (within_openParts_false _) (returns_openParts _ false)
  rintro dir rfl
  apply within_bind (within_lastName _)
  intro name
  exact within_removeEntry unlinkSymlinks stack (below_dropLast_append hps name)

end Writers

/-! ## Opening an opened root -/

variable {t : Tree} {dir : Path}

theorem makeMissing_apply {part : Name} (hname : '\x00' ∉ part)
    (h : t.get (dir ++ [part]) = some .directory) (createMissing : Bool) :
    makeMissing createMissing dir part t = (.ok (), t) := by
  cases createMissing with
  | false => rfl
  | true =>
    simp only [makeMissing, if_true, catchErrno, mkdir]
    rw [create_apply hname, h]
    rfl

theorem openFrom_append (dir : Path) (parts rest : List Name) (h : Opened t (dir ++ parts)) :
    openFrom createMissing dir (parts ++ rest) t =
      openFrom createMissing (dir ++ parts) rest t := by
  induction parts generalizing dir with
  | nil => simp
  | cons part parts ih =>
    have hname := h.names part (by simp)
    have hdirectory := h.directories (dir ++ [part]) ⟨parts, by simp⟩
    have hnext : Opened t (dir ++ [part] ++ parts) := by simpa using h
    rw [List.cons_append, openFrom, FsM.bind_apply,
      makeMissing_apply hname hdirectory createMissing]
    simp only
    rw [FsM.bind_apply, openDirectory_apply hname hdirectory]
    simp only
    rw [ih (dir ++ [part]) hnext]
    simp

section

variable (h : Opened t root)
include h

theorem openRoot_apply : openRoot t = (.ok (), t) := by
  unfold openRoot
  rw [FsM.bind_apply]
  simp only [lookup, h.directories [] List.nil_prefix]
  rfl

theorem openParts_append (rest : List Name) (createMissing : Bool) :
    openParts (root ++ rest) createMissing t =
      catchErrno (openFrom createMissing root rest) .loop (raise symlinkError) t := by
  have hroot : (do openRoot; openFrom createMissing [] (root ++ rest)) t =
      openFrom createMissing root rest t := by
    rw [FsM.bind_apply, openRoot_apply h]
    exact openFrom_append createMissing [] root rest (by simpa using h)
  unfold openParts catchErrno
  rw [hroot]

theorem Opened.of_prefix {q : Path} (hq : q <+: root) : Opened t q where
  directories := fun q' hq' => h.directories q' (hq'.trans hq)
  names := fun name hname => h.names name (hq.subset hname)

theorem openParts_opened (createMissing : Bool) :
    openParts root createMissing t = (.ok root, t) := by
  have happend := openParts_append h [] createMissing
  rw [List.append_nil] at happend
  rw [happend]
  rfl

end

variable {t' : Tree} {a : Path}

theorem opened_of_openFrom (h : Opened t dir)
    (hrun : openFrom false dir parts t = (.ok a, t')) : Opened t (dir ++ parts) ∧ t' = t := by
  induction parts generalizing dir with
  | nil =>
    cases hrun
    exact ⟨by simpa using h, rfl⟩
  | cons part rest ih =>
    rw [openFrom, FsM.bind_apply] at hrun
    simp only [makeMissing, Bool.false_eq_true, if_false, FsM.pure_apply] at hrun
    rw [FsM.bind_apply] at hrun
    by_cases hnull : '\x00' ∈ part
    · obtain ⟨e, he⟩ := raises_openDirectory (ε := WorkspaceError) dir hnull t
      split at hrun
      · rename_i hok
        rw [hok] at he
        cases he
      · cases hrun
    · cases hget : t.get (dir ++ [part]) with
      | none =>
        simp only [openDirectory, FsM.bind_apply, stat_apply hnull, hget] at hrun
        cases hrun
      | some node =>
        cases node with
        | file | symlink | special =>
          simp only [openDirectory, FsM.bind_apply, stat_apply hnull, hget] at hrun
          cases hrun
        | directory =>
          rw [openDirectory_apply hnull hget] at hrun
          have hnext : Opened t (dir ++ [part]) := by
            constructor
            · intro q hq
              rcases List.prefix_concat_iff.mp hq with rfl | hq
              · exact hget
              · exact h.directories q hq
            · intro name hname
              rcases List.mem_append.mp hname with hname | hname
              · exact h.names name hname
              · rw [List.mem_singleton.mp hname]
                exact hnull
          have hrest := ih hnext hrun
          rwa [List.append_assoc] at hrest

theorem opened_of_openParts (hrun : openParts parts false t = (.ok a, t')) : Opened t parts ∧ t' = t := by
  have hbody : (do openRoot; openFrom false [] parts) t = (.ok a, t') := by
    unfold openParts catchErrno at hrun
    split at hrun
    · split_ifs at hrun <;> cases hrun
    · rename_i result u _ hbody
      rw [hbody]
      exact hrun
  rw [FsM.bind_apply] at hbody
  cases hroot : t.get [] with
  | none =>
    simp only [openRoot, FsM.bind_apply, lookup, hroot] at hbody
    cases hbody
  | some node =>
    cases node with
    | file | symlink | special =>
      simp only [openRoot, FsM.bind_apply, lookup, hroot] at hbody
      cases hbody
    | directory =>
      have hempty : Opened t [] := by
        constructor
        · intro q hq
          rw [List.prefix_nil.mp hq]
          exact hroot
        · intro name hname
          cases hname
      rw [openRoot_apply hempty] at hbody
      exact opened_of_openFrom hempty hbody

/-- A directory is found exactly where everything on the way to it is a directory. -/
theorem statAt_isDir_iff (hparts : parts ≠ []) :
    (∃ metadata t', statAt parts t = (.ok metadata, t') ∧ metadata.isDir = true) ↔
      Opened t parts := by
  obtain ⟨dir, name, rfl⟩ : ∃ dir name, parts = dir ++ [name] :=
    ⟨parts.dropLast, parts.getLast hparts, (List.dropLast_append_getLast hparts).symm⟩
  have hstat : statParts (dir ++ [name]) = (do
      let dir ← openParts dir false
      stat dir name) := by
    simp [statParts]
  constructor
  · rintro ⟨metadata, t', hrun, hdir⟩
    rw [statAt, FsM.bind_apply, hstat, FsM.bind_apply] at hrun
    cases hopen : openParts dir false t with
    | mk result u =>
      rw [hopen] at hrun
      cases result with
      | error e => cases hrun
      | ok opened =>
        obtain ⟨hdirs, rfl⟩ := opened_of_openParts hopen
        obtain rfl := returns_openParts dir false _ _ _ hopen
        simp only at hrun
        by_cases hnull : '\x00' ∈ name
        · rw [stat_null hnull] at hrun
          cases hrun
        · rw [stat_apply hnull] at hrun
          cases hget : Table.get u (opened ++ [name]) with
          | none =>
            rw [hget] at hrun
            cases hrun
          | some node =>
            rw [hget] at hrun
            cases node with
            | file content =>
              cases hrun
              cases hdir
            | symlink => simp at hrun
            | special => cases hrun
            | directory =>
              constructor
              · intro q hq
                rcases List.prefix_concat_iff.mp hq with rfl | hq
                · exact hget
                · exact hdirs.directories q hq
              · intro part hpart
                rcases List.mem_append.mp hpart with hpart | hpart
                · exact hdirs.names part hpart
                · rw [List.mem_singleton.mp hpart]
                  exact hnull
  · intro h
    refine ⟨⟨true, 0⟩, t, ?_, rfl⟩
    have hname := h.names name (by simp)
    rw [statAt, FsM.bind_apply, hstat, FsM.bind_apply,
      openParts_opened (h.of_prefix (List.prefix_append _ _)) false]
    simp only
    rw [stat_apply hname, h.directories _ List.prefix_rfl]
    rfl

theorem lastName_append {name : Name} (t : Tree) : lastName (root ++ [name]) t = (.ok name, t) := by
  simp [lastName]

/-! ## Files in the place of the root -/

section AtRoot

variable {t : Tree} {root : Path} {tempName : Name} {dir : Path}

theorem unlinkTemp_absent (h : t.get (dir ++ [tempName]) = none) : (unlinkTemp dir tempName t).2 = t := by
  unfold unlinkTemp catchErrno unlink
  rw [FsM.bind_apply]
  by_cases hnull : '\x00' ∈ tempName
  · rw [stat_null hnull]
    rfl
  · rw [stat_apply hnull, h]
    rfl

variable {α : Type} {m : Fs α}

/-- A temporary file that does not get its name is removed again. -/
theorem withTemp_unchanged {content : List UInt8} (hfresh : t.get (dir ++ [tempName]) = none)
    (hm : ∀ u : Tree, (∀ q, q ≠ dir ++ [tempName] → u.get q = t.get q) → ∃ e, m u = (.error e, u)) :
    (∃ e, (withCleanup (do writeTemp dir tempName content; m) (unlinkTemp dir tempName) t).1 =
        .error e) ∧
      ∀ q, (withCleanup (do writeTemp dir tempName content; m) (unlinkTemp dir tempName) t).2.get q =
        t.get q := by
  by_cases hnull : '\x00' ∈ tempName
  · have hwrite : writeTemp dir tempName content t = (.error (.os .embeddedNull), t) := by
      simp [writeTemp, create, checkName, hnull, FsM.bind_apply]
    have hclean : unlinkTemp dir tempName t = (.error (.os .embeddedNull), t) := by
      simp [unlinkTemp, catchErrno, unlink, FsM.bind_apply, stat_null hnull]
    have hrun : withCleanup (do writeTemp dir tempName content; m) (unlinkTemp dir tempName) t =
        (.error (.os .embeddedNull), t) := by
      simp only [withCleanup, FsM.bind_apply, hwrite, hclean]
    rw [hrun]
    exact ⟨⟨_, rfl⟩, fun _ => rfl⟩
  · have hwrite : writeTemp dir tempName content t =
        (.ok (), (t.upsert (dir ++ [tempName]) (.file [])).upsert (dir ++ [tempName])
          (.file content)) := by
      simp only [writeTemp, FsM.bind_apply, create_apply hnull, hfresh]
      rfl
    generalize hu : (t.upsert (dir ++ [tempName]) (.file [])).upsert (dir ++ [tempName])
      (.file content) = u at hwrite
    have hget : ∀ q, u.get q = if q = dir ++ [tempName] then some (.file content) else t.get q := by
      intro q
      rw [← hu, Table.get_upsert, Table.get_upsert]
      split_ifs <;> rfl
    obtain ⟨e, he⟩ := hm u fun q hq => by rw [hget, if_neg hq]
    have hclean : unlinkTemp dir tempName u = (.ok (), u.erase (dir ++ [tempName])) := by
      simp only [unlinkTemp, catchErrno, unlink, FsM.bind_apply, stat_apply hnull, hget, if_true]
      rfl
    have hrun : withCleanup (do writeTemp dir tempName content; m) (unlinkTemp dir tempName) t =
        (.error e, u.erase (dir ++ [tempName])) := by
      simp only [withCleanup, FsM.bind_apply, hwrite, he, hclean]
    rw [hrun]
    refine ⟨⟨_, rfl⟩, ?_⟩
    intro q
    rw [Table.get_erase, hget]
    split_ifs with hq
    · rw [hq, hfresh]
    · rfl

/-- An action on the root raises and leaves the tree as it was. -/
def Fails {α : Type} (m : Fs α) (t : Tree) : Prop :=
  (∃ e, (m t).1 = .error e) ∧ ∀ q, (m t).2.get q = t.get q

theorem fails_of_eq {e : Raised WorkspaceError} (h : m t = (.error e, t)) :
    Fails m t := by
  unfold Fails
  rw [h]
  exact ⟨⟨e, rfl⟩, fun _ => rfl⟩

variable {dir : Path} {name : Name} (h : Opened t (dir ++ [name]))

include h

variable (createMissing : Bool)

/-- The directory of the root is found. -/
theorem openParts_dropLast_apply :
    openParts (dir ++ [name]).dropLast createMissing t = (.ok dir, t) := by
  rw [List.dropLast_concat]
  exact openParts_opened (h.of_prefix (List.prefix_append _ _)) createMissing

theorem stat_root_apply : (stat dir name : Fs Node) t = (.ok .directory, t) := by
  rw [stat_apply (h.names name (by simp)), h.directories _ List.prefix_rfl]

theorem inParent_apply (f : Path → Name → Fs α) :
    inParent (dir ++ [name]) createMissing f t = f dir name t := by
  simp only [inParent, FsM.bind_apply, raiseIf, List.append_eq_nil_iff, List.cons_ne_self,
    and_false, if_false, FsM.pure_apply, openParts_dropLast_apply h, lastName_append]

variable (content : List UInt8)

theorem fails_writeAt : Fails (writeAt (dir ++ [name]) content) t := by
  have hopen : openRegularFile (dir ++ [name]) true t = (.error (.os .isDirectory), t) := by
    rw [openRegularFile, inParent_apply h]
    simp only [FsM.bind_apply, catchErrno, openFile, stat_root_apply h]
    rfl
  apply fails_of_eq (e := .os .isDirectory)
  simp only [writeAt, FsM.bind_apply, hopen]

/-- The actions that prepare a temporary file next to the root. -/
theorem fails_inParent {createMissing : Bool} {f : Path → Name → Fs α}
    (hf : Fails (f dir name) t) : Fails (inParent (dir ++ [name]) createMissing f) t := by
  unfold Fails
  rw [inParent_apply h]
  exact hf

section

variable (hfresh : t.get (dir ++ [tempName]) = none)
include hfresh

theorem fails_replaceAt :
    Fails (replaceAt (dir ++ [name]) content tempName) t := by
  apply fails_inParent h
  have hfound : statOrNone dir name t = (.ok (some .directory), t) := by
    simp only [statOrNone, catchErrno, FsM.bind_apply, stat_root_apply h, FsM.pure_apply]
  have hclean := unlinkTemp_absent hfresh
  unfold Fails withCleanup
  simp only [FsM.bind_apply, hfound, FsM.raise_apply]
  cases hrun : unlinkTemp dir tempName t with
  | mk result t' =>
    rw [hrun] at hclean
    cases hclean
    cases result with
    | error e => exact ⟨⟨e, rfl⟩, fun _ => rfl⟩
    | ok _ => exact ⟨⟨_, rfl⟩, fun _ => rfl⟩

theorem get_root_of_temp {u : Tree} (hu : ∀ q, q ≠ dir ++ [tempName] → u.get q = t.get q) :
    u.get (dir ++ [name]) = some .directory := by
  have hroot := h.directories _ List.prefix_rfl
  rw [hu, hroot]
  intro heq
  rw [heq, hfresh] at hroot
  cases hroot

theorem fails_createAt :
    Fails (createAt (dir ++ [name]) content tempName) t := by
  apply fails_inParent h
  apply withTemp_unchanged hfresh
  intro u hu
  obtain ⟨e, he⟩ := link_of_exists tempName (get_root_of_temp h hfresh hu)
  exact ⟨e, by rw [FsM.bind_apply, he]⟩

end

theorem fails_uploadAt (source : Option (List UInt8)) (overwrite createParents : Bool)
    (hfresh : t.get (dir ++ [tempName]) = none) :
    Fails (uploadAt (dir ++ [name]) source overwrite createParents tempName) t := by
  apply fails_inParent h
  cases source with
  | none =>
    have hclean := unlinkTemp_absent hfresh
    unfold Fails withCleanup
    simp only [FsM.raise_apply]
    cases hrun : unlinkTemp dir tempName t with
    | mk result t' =>
      rw [hrun] at hclean
      cases hclean
      cases result with
      | error e => exact ⟨⟨e, rfl⟩, fun _ => rfl⟩
      | ok _ => exact ⟨⟨_, rfl⟩, fun _ => rfl⟩
  | some content =>
    apply withTemp_unchanged hfresh
    intro u hu
    have hroot := get_root_of_temp h hfresh hu
    cases overwrite with
    | true =>
      obtain ⟨e, he⟩ := rename_of_directory tempName hroot
      exact ⟨e, by rw [FsM.bind_apply, publishTemp, if_pos rfl, he]⟩
    | false =>
      obtain ⟨e, he⟩ := link_of_exists tempName hroot
      refine ⟨e, ?_⟩
      simp only [FsM.bind_apply, publishTemp, Bool.false_eq_true, if_false, he]

end AtRoot

/-! ## Outside the root -/

section Outside

variable {t : Tree} {root : Path} {ps : List Name} {α : Type}

theorem Within.outside {m : Fs α} (h : Within (Below root) m) (t : Tree) :
    Outside root m t :=
  fun q hq => h t q hq

theorem Fails.outside {m : Fs α} (h : Fails m t) : Outside root m t :=
  fun q _ => h.2 q

/-- A name that is used nowhere in the tree. -/
def Fresh (t : Tree) (tempName : Name) : Prop :=
  ∀ dir, t.get (dir ++ [tempName]) = none

theorem exists_eq_concat (hroot : root ≠ []) : ∃ dir name, root = dir ++ [name] :=
  ⟨root.dropLast, root.getLast hroot, (List.dropLast_append_getLast hroot).symm⟩

section

variable (h : Opened t root)
include h

theorem outside_writeAt (hroot : root ≠ []) (content : List UInt8) :
    Outside root (writeAt (root ++ ps) content) t := by
  by_cases hps : ps = []
  · obtain ⟨dir, name, rfl⟩ := exists_eq_concat hroot
    rw [hps, List.append_nil]
    exact (fails_writeAt h content).outside
  · exact Within.outside (within_writeAt hps content) t

variable {tempName : Name}

theorem outside_replaceAt (hroot : root ≠ []) (content : List UInt8) (hfresh : Fresh t tempName) :
    Outside root (replaceAt (root ++ ps) content tempName) t := by
  by_cases hps : ps = []
  · obtain ⟨dir, name, rfl⟩ := exists_eq_concat hroot
    rw [hps, List.append_nil]
    exact (fails_replaceAt h content (hfresh dir)).outside
  · exact Within.outside (within_replaceAt hps content tempName) t

theorem outside_createAt (hroot : root ≠ []) (content : List UInt8) (hfresh : Fresh t tempName) :
    Outside root (createAt (root ++ ps) content tempName) t := by
  by_cases hps : ps = []
  · obtain ⟨dir, name, rfl⟩ := exists_eq_concat hroot
    rw [hps, List.append_nil]
    exact (fails_createAt h content (hfresh dir)).outside
  · exact Within.outside (within_createAt hps content tempName) t

/-- Missing directories are made below the root, since those on the way to it are there. -/
theorem outside_inParent {α : Type} (hps : ps ≠ []) (createMissing : Bool)
    {f : Path → Name → Fs α} (hf : ∀ name, Within (Below root) (f (root ++ ps).dropLast name)) :
    Outside root (inParent (root ++ ps) createMissing f) t := by
  have hdir : (root ++ ps).dropLast = root ++ ps.dropLast := List.dropLast_append_of_ne_nil hps
  have hopen := openParts_append h ps.dropLast createMissing
  have hrun : inParent (root ++ ps) createMissing f t =
      (do
        let dir ← catchErrno (openFrom createMissing root ps.dropLast) .loop (raise symlinkError)
        let name ← lastName (root ++ ps)
        f dir name) t := by
    unfold inParent
    rw [FsM.bind_apply, raiseIf, if_neg (by simp [hps]), FsM.pure_apply]
    simp only
    rw [FsM.bind_apply, FsM.bind_apply, hdir, hopen]
  have hwithin : Within (Below root) (openFrom createMissing root ps.dropLast) := by
    cases createMissing with
    | false => exact within_openFrom_false root _
    | true => exact within_openFrom_true root root _ (.inl rfl)
  intro q hq
  rw [hrun]
  refine within_bind_of (within_catchErrno .loop hwithin (within_raise _))
    (returns_catchErrno_raise (returns_openFrom createMissing root ps.dropLast) .loop _) ?_ t q hq
  rintro dir rfl
  apply within_bind (within_lastName _)
  intro name
  rw [← hdir]
  exact hf name

theorem outside_uploadAt (hroot : root ≠ []) (source : Option (List UInt8))
    (overwrite createParents : Bool) (hfresh : Fresh t tempName) :
    Outside root (uploadAt (root ++ ps) source overwrite createParents tempName) t := by
  by_cases hps : ps = []
  · obtain ⟨dir, name, rfl⟩ := exists_eq_concat hroot
    rw [hps, List.append_nil]
    exact (fails_uploadAt h source overwrite createParents (hfresh dir)).outside
  · apply outside_inParent h hps
    intro name
    have hname : Below root ((root ++ ps).dropLast ++ [name]) :=
      below_dropLast_append hps name
    have htemp : Below root ((root ++ ps).dropLast ++ [tempName]) :=
      below_dropLast_append hps tempName
    refine within_withCleanup ?_ (within_unlinkTemp htemp)
    cases source with
    | none => exact within_raise _
    | some content =>
      apply within_bind (within_writeTemp htemp content)
      intro _
      apply within_bind
      · apply within_ite
        · exact within_rename htemp hname
        · apply within_bind (within_link hname)
          intro _
          exact within_unlink htemp
      · intro _
        exact within_pure _

end

end Outside

/-! ## Names with a null character -/

section Null

/-- Some component has a null character. -/
def HasNull (parts : List Name) : Prop :=
  ∃ part ∈ parts, '\x00' ∈ part

variable {parts : List Name}

theorem raises_openFrom (createMissing : Bool) (dir : Path) (h : HasNull parts) : Raises
    (openFrom createMissing dir parts) := by
  induction parts generalizing dir with
  | nil =>
    obtain ⟨part, hpart, -⟩ := h
    cases hpart
  | cons part rest ih =>
    apply raises_bind_right
    intro _
    by_cases hpart : '\x00' ∈ part
    · exact raises_bind_left (raises_openDirectory dir hpart)
    · apply raises_bind_right
      intro _
      apply ih
      obtain ⟨found, hfound, hnull⟩ := h
      rcases List.mem_cons.mp hfound with rfl | hrest
      · exact absurd hnull hpart
      · exact ⟨found, hrest, hnull⟩

theorem raises_openParts (h : HasNull parts) (createMissing : Bool) :
    Raises (openParts parts createMissing) := by
  apply raises_catchErrno .loop _ (raises_raise _)
  apply raises_bind_right
  intro _
  exact raises_openFrom createMissing [] h

theorem hasNull_cases (h : HasNull parts) :
    HasNull parts.dropLast ∨ ∃ name, parts.getLast? = some name ∧ '\x00' ∈ name := by
  obtain ⟨part, hpart, hnull⟩ := h
  have hne : parts ≠ [] := List.ne_nil_of_mem hpart
  rw [← List.dropLast_append_getLast hne] at hpart
  rcases List.mem_append.mp hpart with hinit | hlast
  · exact .inl ⟨part, hinit, hnull⟩
  · rw [List.mem_singleton.mp hlast] at hnull
    exact .inr ⟨_, List.getLast?_eq_some_getLast hne, hnull⟩

variable {α : Type}

theorem raises_bind_returns {β : Type} {P : α → Prop} {m : Fs α} {f : α → Fs β}
    (hm : Returns P m) (hf : ∀ a, P a → Raises (f a)) : Raises (m >>= f) := by
  intro t
  rw [FsM.bind_apply]
  cases hrun : m t with
  | mk result t' =>
    cases result with
    | error e => exact ⟨e, rfl⟩
    | ok a => exact hf a (hm t a t' hrun) t'

theorem raises_inParent (h : HasNull parts) (createMissing : Bool)
    {f : Path → Name → Fs α} (hf : ∀ dir name, '\x00' ∈ name → Raises (f dir name)) :
    Raises (inParent parts createMissing f) := by
  apply raises_bind_right
  intro _
  rcases hasNull_cases h with hinit | ⟨name, hname, hnull⟩
  · exact raises_bind_left (raises_openParts hinit createMissing)
  · apply raises_bind_right
    intro dir
    apply raises_bind_returns (returns_lastName parts)
    intro last hlast
    rw [hname, Option.some.injEq] at hlast
    subst hlast
    exact hf dir name hnull

variable {parts : List Name}

theorem raises_openRegularFile (h : HasNull parts) (writable : Bool) :
    Raises (openRegularFile parts writable) := by
  apply raises_inParent h
  intro dir name hnull
  exact raises_bind_left
    (raises_catchErrno .loop (raises_openFile dir hnull writable) (raises_raise _))

theorem raises_listAt (lower : Name → Name) (h : HasNull parts) : Raises (listAt lower parts) :=
  raises_bind_left (raises_openParts h false)

section

variable (h : HasNull parts)
include h

theorem raises_statAt : Raises (statAt parts) := by
  apply raises_bind_left
  rcases hasNull_cases h with hinit | ⟨name, hname, hnull⟩
  · have hne : parts ≠ [] := by
      rintro rfl
      obtain ⟨part, hpart, -⟩ := hinit
      cases hpart
    rw [statParts, List.getLast?_eq_some_getLast hne]
    exact raises_bind_left (raises_openParts hinit false)
  · rw [statParts, hname]
    apply raises_bind_right
    intro dir
    exact raises_stat dir hnull

variable (maxBytes : Int)

theorem raises_readAt : Raises (readAt parts maxBytes) :=
  raises_bind_left (raises_openRegularFile h false)

theorem raises_readPrefixAt :
    Raises (readPrefixAt parts maxBytes) :=
  raises_bind_left (raises_openRegularFile h false)

variable (content : List UInt8)

theorem raises_writeAt :
    Raises (writeAt parts content) :=
  raises_bind_left (raises_openRegularFile h true)

theorem raises_replaceAt (tempName : Name) :
    Raises (replaceAt parts content tempName) := by
  apply raises_inParent h
  intro dir name hnull
  apply raises_withCleanup
  have hwrite : Raises (do
      writeTemp dir tempName content
      rename dir tempName name
      pure (metadataFromStat (.file content))) := by
    apply raises_bind_right
    intro _
    exact raises_bind_left (raises_rename dir tempName hnull)
  apply raises_bind_right
  intro node
  cases node with
  | none => exact hwrite
  | some node =>
    cases node with
    | file old => exact hwrite
    | directory | symlink | special => exact raises_raise _

theorem raises_createAt (tempName : Name) :
    Raises (createAt parts content tempName) := by
  apply raises_inParent h
  intro dir name hnull
  apply raises_withCleanup
  apply raises_bind_right
  intro _
  exact raises_bind_left (raises_link dir tempName hnull)

theorem raises_uploadAt (source : Option (List UInt8))
    (overwrite createParents : Bool) (tempName : Name) :
    Raises (uploadAt parts source overwrite createParents tempName) := by
  apply raises_inParent h
  intro dir name hnull
  apply raises_withCleanup
  cases source with
  | none => exact raises_raise _
  | some content =>
    apply raises_bind_right
    intro _
    apply raises_bind_left
    apply raises_ite
    · exact raises_rename dir tempName hnull
    · exact raises_bind_left (raises_link dir tempName hnull)

theorem raises_mkdirAt (name : Name) : Raises (mkdirAt parts name) :=
  raises_bind_left (raises_openParts h false)

end

theorem raises_deleteAt (stack : Nat) (h : HasNull parts) (unlinkSymlinks : Bool) :
    Raises (deleteAt stack parts unlinkSymlinks) := by
  rcases hasNull_cases h with hinit | ⟨name, hname, hnull⟩
  · exact raises_bind_left (raises_openParts hinit false)
  · apply raises_bind_right
    intro dir
    apply raises_bind_returns (returns_lastName parts)
    intro last hlast
    rw [hname, Option.some.injEq] at hlast
    subst hlast
    cases stack with
    | zero => exact raises_raise _
    | succ depth => exact raises_bind_left (raises_stat dir hnull)

/-- A source or a target with a null character: the move raises, in the second case after the
call has seen a shorter name. -/
theorem raises_moveAt {source target : List Name} (h : HasNull source ∨ HasNull target) :
    Raises (moveAt source target) := by
  rcases h with h | h
  · rcases hasNull_cases h with hinit | ⟨name, hname, hnull⟩
    · exact raises_bind_left (raises_openParts hinit false)
    · apply raises_bind_right
      intro sourceDir
      apply raises_bind_right
      intro targetDir
      apply raises_bind_returns (returns_lastName source)
      intro last hlast
      rw [hname, Option.some.injEq] at hlast
      subst hlast
      exact raises_bind_left (raises_stat sourceDir hnull)
  · apply raises_bind_right
    intro sourceDir
    rcases hasNull_cases h with hinit | ⟨name, hname, hnull⟩
    · exact raises_bind_left (raises_openParts hinit false)
    · apply raises_bind_right
      intro targetDir
      apply raises_bind_right
      intro sourceName
      apply raises_bind_right
      intro node
      cases node with
      | directory | symlink | special => exact raises_raise _
      | file content =>
        apply raises_bind_returns (returns_lastName target)
        intro last hlast
        rw [hname, Option.some.injEq] at hlast
        subst hlast
        apply raises_bind_right
        intro _
        exact raises_bind_left (raises_stat targetDir hnull)

end Null

end Workspace

end Yuanlei
