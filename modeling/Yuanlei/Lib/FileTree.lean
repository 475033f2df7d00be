import Yuanlei.Lib.Table
import Mathlib.Data.List.Infix
import Yuanlei.Lib.PyText

/-!
# Directory trees

The calls of `os` that take a directory descriptor and a name, on a tree of files, directories,
symbolic links and other entries.  An entry is addressed by the names on the way to it from the
root, and a descriptor of a directory by those of the directory.  A call either returns or raises,
and what it has changed before it raises stays changed.

Main results:

- `FsM`: computations on a tree that may raise.
- `within_bind` and `within_withCleanup`: its rules.
-/

namespace FileTree

abbrev Name := List Char

abbrev Path := List Name

/-- An entry; links are never followed, so their target does not matter. -/
inductive Node where
  | file (content : List UInt8)
  | directory
  | symlink
  | special
deriving DecidableEq

abbrev Tree := Table Path Node

/-- The errors of the calls; a name with a null character is rejected before the call. -/
inductive Errno where
  | noEntry
  | entryExists
  | notDirectory
  | isDirectory
  | loop
  | notEmpty
  | busy
  | embeddedNull
deriving DecidableEq

/-- What a computation raises: an error of a call or one of its own. -/
inductive Raised (ε : Type) where
  | os (errno : Errno)
  | recursion
  | app (error : ε)
deriving DecidableEq

/-- A computation on a tree that may raise. -/
def FsM (ε α : Type) :=
  Tree → Except (Raised ε) α × Tree

namespace FsM

variable {ε α β : Type}

instance : Monad (FsM ε) where
  pure a := fun t => (.ok a, t)
  bind m f := fun t =>
    match m t with
    | (.ok a, t') => f a t'
    | (.error e, t') => (.error e, t')

def raise (e : Raised ε) : FsM ε α :=
  fun t => (.error e, t)

/-- `if` with `raise`. -/
def raiseIf (c : Prop) [Decidable c] (e : Raised ε) : FsM ε Unit :=
  if c then raise e else pure ()

/-- A check that does not look at the tree. -/
def lift (result : Except ε α) : FsM ε α :=
  match result with
  | .ok a => pure a
  | .error e => raise (.app e)

/-- `try` with `finally`. -/
def withCleanup (m : FsM ε α) (cleanup : FsM ε Unit) : FsM ε α :=
  fun t =>
    match cleanup (m t).2 with
    | (.ok (), t') => ((m t).1, t')
    | (.error e, t') => (.error e, t')

/-- `except` for one error of a call. -/
def catchErrno (m : FsM ε α) (errno : Errno) (handler : FsM ε α) : FsM ε α :=
  fun t =>
    match m t with
    | (.error (.os e), t') => if e = errno then handler t' else (.error (.os e), t')
    | (result, t') => (result, t')

variable (a : α)

@[simp]
theorem pure_apply (t : Tree) : (pure a : FsM ε α) t = (.ok a, t) :=
  rfl

theorem bind_apply (m : FsM ε α) (f : α → FsM ε β) (t : Tree) :
    (m >>= f) t = match m t with
      | (.ok a, t') => f a t'
      | (.error e, t') => (.error e, t') :=
  rfl

variable {t t' : Tree}

/-- A sequence that returns has returned from both of its parts. -/
theorem bind_eq_ok {m : FsM ε α} {f : α → FsM ε β} {b : β}
    (h : (m >>= f) t = (.ok b, t')) : ∃ a u, m t = (.ok a, u) ∧ f a u = (.ok b, t') := by
  rw [bind_apply] at h
  cases hm : m t with
  | mk result u =>
    rw [hm] at h
    cases result with
    | error e => cases h
    | ok a => exact ⟨a, u, rfl, h⟩

@[simp]
theorem raise_apply (e : Raised ε) (t : Tree) : (raise e : FsM ε α) t = (.error e, t) :=
  rfl

@[simp]
theorem lift_ok : (lift (.ok a) : FsM ε α) = pure a :=
  rfl

@[simp]
theorem lift_error (e : ε) : (lift (.error e) : FsM ε α) = raise (.app e) :=
  rfl

theorem lift_eq_ok {x : Except ε α} {a : α} (h : (lift x : FsM ε α) t = (.ok a, t')) : x = .ok a ∧ t' = t := by
  cases x with
  | error e => cases h
  | ok a =>
    cases h
    exact ⟨rfl, rfl⟩

theorem raiseIf_eq_ok {c : Prop} [Decidable c] {e : Raised ε} {u : Unit}
    (h : (raiseIf c e : FsM ε Unit) t = (.ok u, t')) : t' = t := by
  unfold raiseIf at h
  split_ifs at h
  · cases h
  · cases h
    rfl

@[simp]
theorem pure_bind (f : α → FsM ε β) : (pure a >>= f) = f a :=
  rfl

@[simp]
theorem raise_bind (e : Raised ε) (f : α → FsM ε β) : (raise e >>= f) = raise e :=
  rfl

theorem lift_bind (x : Except ε α) (f : α → Except ε β) :
    (lift (x >>= f) : FsM ε β) = lift x >>= fun a => lift (f a) := by
  cases x <;> rfl

theorem bind_assoc {γ : Type} (m : FsM ε α) (f : α → FsM ε β) (g : β → FsM ε γ) :
    (m >>= f >>= g) = m >>= fun a => f a >>= g := by
  funext t
  rw [bind_apply, bind_apply, bind_apply]
  cases hm : m t with
  | mk result t' => cases result <;> rfl

end FsM

/-! ## Calls -/

section Calls

variable {ε : Type}

open FsM

/-- A name with a null character never reaches the call. -/
def checkName (name : Name) : FsM ε Unit :=
  if '\x00' ∈ name then raise (.os .embeddedNull) else pure ()

/-- The entry at a place, if there is one. -/
def lookup (q : Path) : FsM ε (Option Node) :=
  fun t => (.ok (t.get q), t)

/-- `os.stat` without following a link. -/
def stat (dir : Path) (name : Name) : FsM ε Node := do
  checkName name
  match ← lookup (dir ++ [name]) with
  | none => raise (.os .noEntry)
  | some node => pure node

/-- `os.open` of a directory without following a link. -/
def openDirectory (dir : Path) (name : Name) : FsM ε Unit := do
  match ← stat dir name with
  | .directory => pure ()
  | .symlink => raise (.os .loop)
  | _ => raise (.os .notDirectory)

/-- `os.open` of a file that has to exist, without following a link: its entry and whether it
can be opened. -/
def openFile (dir : Path) (name : Name) (writable : Bool) : FsM ε Node := do
  match ← stat dir name with
  | .symlink => raise (.os .loop)
  | .directory => if writable then raise (.os .isDirectory) else pure .directory
  | node => pure node

/-- `os.listdir`. -/
def listNames (dir : Path) : FsM ε (List Name) :=
  fun t => (.ok ((t.keys.filter fun q => q != [] && q.dropLast == dir).map (·.getLastD [])), t)

def put (q : Path) (node : Node) : FsM ε Unit :=
  fun t => (.ok (), t.upsert q node)

def drop (q : Path) : FsM ε Unit :=
  fun t => (.ok (), t.erase q)

/-- A new entry where there is none. -/
def create (dir : Path) (name : Name) (node : Node) : FsM ε Unit := do
  checkName name
  match ← lookup (dir ++ [name]) with
  | none => put (dir ++ [name]) node
  | some _ => raise (.os .entryExists)

def mkdir (dir : Path) (name : Name) : FsM ε Unit :=
  create dir name .directory

def unlink (dir : Path) (name : Name) : FsM ε Unit := do
  match ← stat dir name with
  | .directory => raise (.os .isDirectory)
  | _ => drop (dir ++ [name])

def rmdir (dir : Path) (name : Name) : FsM ε Unit := do
  match ← stat dir name with
  | .directory =>
    if (← listNames (dir ++ [name])) = [] then drop (dir ++ [name])
    else raise (.os .notEmpty)
  | _ => raise (.os .notDirectory)

/-- `os.link` between two names of one directory. -/
def link (dir : Path) (source target : Name) : FsM ε Unit := do
  checkName target
  let node ← stat dir source
  create dir target node

/-- `os.rename` of a file between two names of one directory. -/
def rename (dir : Path) (source target : Name) : FsM ε Unit := do
  checkName target
  let node ← stat dir source
  match ← lookup (dir ++ [target]) with
  | some .directory => raise (.os .isDirectory)
  | _ => do
      put (dir ++ [target]) node
      if source ≠ target then drop (dir ++ [source])

/-- What a call of the C library sees of a name. -/
def cString (name : Name) : Name :=
  name.takeWhile (· != '\x00')

/-- `renameat2` with `RENAME_NOREPLACE`, called through the C library. -/
def renameat2 (sourceDir : Path) (source : Name) (targetDir : Path) (target : Name) :
    FsM ε Unit := do
  let sourceName := cString source
  let targetName := cString target
  if sourceName = [] ∨ targetName = [] then raise (.os .noEntry)
  else if sourceName ∈ [['.'], ['.', '.']] ∨ targetName ∈ [['.'], ['.', '.']] then
    raise (.os .busy)
  else
    let node ← stat sourceDir sourceName
    create targetDir targetName node
    drop (sourceDir ++ [sourceName])

end Calls

/-! ## Calls on a given tree -/

section Apply

open FsM

variable {ε : Type} {t : Tree} {dir : Path} {name : Name}

theorem checkName_apply (h : '\x00' ∉ name) : (checkName name : FsM ε Unit) = pure () := by
  simp [checkName, h]

theorem stat_apply (h : '\x00' ∉ name) : (stat dir name : FsM ε Node) t =
      match t.get (dir ++ [name]) with
      | none => (.error (.os .noEntry), t)
      | some node => (.ok node, t) := by
  unfold stat
  rw [checkName_apply h, FsM.pure_bind, bind_apply]
  simp only [lookup]
  cases t.get (dir ++ [name]) <;> rfl

theorem stat_null (h : '\x00' ∈ name) :
    (stat dir name : FsM ε Node) t = (.error (.os .embeddedNull), t) := by
  unfold stat checkName
  rw [if_pos h]
  rfl

theorem openDirectory_apply (h : '\x00' ∉ name)
    (hdirectory : t.get (dir ++ [name]) = some .directory) :
    (openDirectory dir name : FsM ε Unit) t = (.ok (), t) := by
  unfold openDirectory
  rw [bind_apply, stat_apply h, hdirectory]
  rfl

theorem create_apply (h : '\x00' ∉ name) (node : Node) : (create dir name node : FsM ε Unit) t =
      match t.get (dir ++ [name]) with
      | none => (.ok (), t.upsert (dir ++ [name]) node)
      | some _ => (.error (.os .entryExists), t) := by
  unfold create
  rw [checkName_apply h, FsM.pure_bind, bind_apply]
  simp only [lookup]
  cases t.get (dir ++ [name]) <;> rfl

variable (source : Name)

theorem link_of_exists {node : Node} (h : t.get (dir ++ [name]) = some node) :
    ∃ e, (link dir source name : FsM ε Unit) t = (.error e, t) := by
  unfold link
  by_cases hnull : '\x00' ∈ name
  · exact ⟨.os .embeddedNull, by simp [checkName, hnull]⟩
  · rw [checkName_apply hnull, FsM.pure_bind, bind_apply]
    by_cases hsource : '\x00' ∈ source
    · exact ⟨_, by rw [stat_null hsource]⟩
    · rw [stat_apply hsource]
      cases t.get (dir ++ [source]) with
      | none => exact ⟨_, rfl⟩
      | some found =>
        refine ⟨.os .entryExists, ?_⟩
        simp only
        rw [create_apply hnull, h]

theorem rename_of_directory (h : t.get (dir ++ [name]) = some .directory) :
    ∃ e, (rename dir source name : FsM ε Unit) t = (.error e, t) := by
  unfold rename
  by_cases hnull : '\x00' ∈ name
  · exact ⟨.os .embeddedNull, by simp [checkName, hnull]⟩
  · rw [checkName_apply hnull, FsM.pure_bind, bind_apply]
    by_cases hsource : '\x00' ∈ source
    · exact ⟨_, by rw [stat_null hsource]⟩
    · rw [stat_apply hsource]
      cases t.get (dir ++ [source]) with
      | none => exact ⟨_, rfl⟩
      | some found => exact ⟨.os .isDirectory, by simp only [bind_apply, lookup, h, raise_apply]⟩

end Apply

/-! ## The tree of one path -/

theorem nodup_inits {α : Type} (l : List α) : l.inits.Nodup := by
  induction l with
  | nil => simp
  | cons a l ih =>
    rw [List.inits_cons, List.nodup_cons]
    refine ⟨by simp, ?_⟩
    exact ih.map (List.cons_injective)

/-- The tree that has the directories on the way to a path and nothing else. -/
def chain (path : Path) : Tree where
  rows := path.inits.map fun q => (q, .directory)
  nodupKeys := by
    simpa [Function.comp_def] using nodup_inits path

theorem get_chain (path q : Path) :
    (chain path).get q = if q <+: path then some .directory else none := by
  apply Option.ext
  intro node
  rw [← Table.mem_rows_iff]
  simp only [chain, List.mem_map, List.mem_inits, Prod.mk.injEq]
  split_ifs with hq
  · constructor
    · rintro ⟨q', -, rfl, rfl⟩
      rfl
    · intro hnode
      exact ⟨q, hq, rfl, Option.some.inj hnode⟩
  · constructor
    · rintro ⟨q', hq', rfl, -⟩
      exact absurd hq' hq
    · intro hnode
      cases hnode

/-! ## Changes within a set of entries -/

section Within

open FsM

variable {ε α β : Type}

/-- The computation changes no entry outside the set. -/
def Within (S : Path → Prop) (m : FsM ε α) : Prop :=
  ∀ t q, ¬ S q → (m t).2.get q = t.get q

variable {S : Path → Prop}

theorem within_pure (a : α) : Within S (pure a : FsM ε α) :=
  fun _ _ _ => rfl

theorem within_raise (e : Raised ε) : Within S (raise e : FsM ε α) :=
  fun _ _ _ => rfl

variable {m : FsM ε α} {f : α → FsM ε β}

theorem within_bind (hm : Within S m) (hf : ∀ a, Within S (f a)) : Within S (m >>= f) := by
  intro t q hq
  have hfirst := hm t q hq
  rw [bind_apply]
  cases hrun : m t with
  | mk result t' =>
    rw [hrun] at hfirst
    cases result with
    | error e => exact hfirst
    | ok a => exact (hf a t' q hq).trans hfirst

/-- What the computation returns has a property. -/
def Returns (P : α → Prop) (m : FsM ε α) : Prop :=
  ∀ t a t', m t = (.ok a, t') → P a

theorem returns_bind {P : β → Prop} (h : ∀ a, Returns P (f a)) : Returns P (m >>= f) := by
  intro t b t' hrun
  rw [bind_apply] at hrun
  cases hm : m t with
  | mk result u =>
    rw [hm] at hrun
    cases result with
    | error e => cases hrun
    | ok a => exact h a u b t' hrun

/-- The rule for a sequence whose second part relies on what the first one returns. -/
theorem within_bind_of {P : α → Prop} (hm : Within S m)
    (hreturns : Returns P m) (hf : ∀ a, P a → Within S (f a)) : Within S (m >>= f) := by
  intro t q hq
  have hfirst := hm t q hq
  rw [bind_apply]
  cases hrun : m t with
  | mk result t' =>
    rw [hrun] at hfirst
    cases result with
    | error e => exact hfirst
    | ok a => exact (hf a (hreturns t a t' hrun) t' q hq).trans hfirst

theorem within_lift (result : Except ε α) : Within S (lift result) := by
  cases result with
  | ok a => exact within_pure a
  | error e => exact within_raise _

theorem within_ite {c : Prop} [Decidable c] {m' : FsM ε α} (h : Within S m)
    (h' : Within S m') : Within S (if c then m else m') := by
  split_ifs
  · exact h
  · exact h'

theorem within_raiseIf (c : Prop) [Decidable c] (e : Raised ε) : Within S (raiseIf c e) :=
  within_ite (within_raise _) (within_pure _)

theorem within_withCleanup {cleanup : FsM ε Unit} (hm : Within S m)
    (hcleanup : Within S cleanup) : Within S (withCleanup m cleanup) := by
  intro t q hq
  have hfirst := hm t q hq
  have hsecond := hcleanup (m t).2 q hq
  unfold withCleanup
  cases hclean : cleanup (m t).2 with
  | mk result t' =>
    rw [hclean] at hsecond
    cases result <;> exact hsecond.trans hfirst

theorem within_catchErrno {handler : FsM ε α} (errno : Errno) (hm : Within S m)
    (hhandler : Within S handler) : Within S (catchErrno m errno handler) := by
  intro t q hq
  have hfirst := hm t q hq
  have hsecond := hhandler (m t).2 q hq
  unfold catchErrno
  split
  · rename_i e t' hrun
    rw [hrun] at hfirst hsecond
    split_ifs
    · exact hsecond.trans hfirst
    · exact hfirst
  · rename_i result t' _ hrun
    rw [hrun] at hfirst
    exact hfirst

theorem within_checkName (name : Name) : Within S (checkName name : FsM ε Unit) :=
  within_ite (within_raise _) (within_pure _)

theorem within_lookup (q : Path) : Within S (lookup q : FsM ε (Option Node)) :=
  fun _ _ _ => rfl

theorem within_stat (dir : Path) (name : Name) : Within S (stat dir name : FsM ε Node) := by
  apply within_bind (within_checkName name)
  intro _
  apply within_bind (within_lookup _)
  intro found
  cases found with
  | none => exact within_raise _
  | some node => exact within_pure _

theorem within_openDirectory (dir : Path) (name : Name) :
    Within S (openDirectory dir name : FsM ε Unit) := by
  apply within_bind (within_stat dir name)
  intro node
  cases node with
  | directory => exact within_pure _
  | file | symlink | special => exact within_raise _

theorem within_openFile (dir : Path) (name : Name) (writable : Bool) :
    Within S (openFile dir name writable : FsM ε Node) := by
  apply within_bind (within_stat dir name)
  intro node
  cases node with
  | directory => exact within_ite (within_raise _) (within_pure _)
  | symlink => exact within_raise _
  | file | special => exact within_pure _

theorem within_listNames (dir : Path) : Within S (listNames dir : FsM ε (List Name)) :=
  fun _ _ _ => rfl

variable {q : Path}

theorem within_put (hq : S q) (node : Node) : Within S (put q node : FsM ε Unit) := by
  intro t q' hq'
  have hne : q' ≠ q := fun heq => hq' (heq ▸ hq)
  simp [put, Table.get_upsert, hne]

theorem within_drop (hq : S q) : Within S (drop q : FsM ε Unit) := by
  intro t q' hq'
  have hne : q' ≠ q := fun heq => hq' (heq ▸ hq)
  simp [drop, Table.get_erase, hne]

variable {dir : Path} {name : Name}

theorem within_create (h : S (dir ++ [name])) (node : Node) :
    Within S (create dir name node : FsM ε Unit) := by
  apply within_bind (within_checkName name)
  intro _
  apply within_bind (within_lookup _)
  intro found
  cases found with
  | none => exact within_put h node
  | some old => exact within_raise _

theorem within_unlink (h : S (dir ++ [name])) :
    Within S (unlink dir name : FsM ε Unit) := by
  apply within_bind (within_stat dir name)
  intro node
  cases node with
  | directory => exact within_raise _
  | file | symlink | special => exact within_drop h

theorem within_rmdir (h : S (dir ++ [name])) :
    Within S (rmdir dir name : FsM ε Unit) := by
  apply within_bind (within_stat dir name)
  intro node
  cases node with
  | directory =>
    apply within_bind (within_listNames _)
    intro names
    exact within_ite (within_drop h) (within_raise _)
  | file | symlink | special => exact within_raise _

variable {source target : Name}

theorem within_link (h : S (dir ++ [target])) :
    Within S (link dir source target : FsM ε Unit) := by
  apply within_bind (within_checkName target)
  intro _
  apply within_bind (within_stat dir source)
  intro node
  exact within_create h node

theorem within_rename (hsource : S (dir ++ [source]))
    (htarget : S (dir ++ [target])) : Within S (rename dir source target : FsM ε Unit) := by
  apply within_bind (within_checkName target)
  intro _
  apply within_bind (within_stat dir source)
  intro node
  have hmove : Within S (do
      put (dir ++ [target]) node
      if source ≠ target then drop (dir ++ [source]) : FsM ε Unit) := by
    apply within_bind (within_put htarget node)
    intro _
    exact within_ite (within_drop hsource) (within_pure _)
  apply within_bind (within_lookup _)
  intro found
  cases found with
  | none => exact hmove
  | some old =>
    cases old with
    | directory => exact within_raise _
    | file | symlink | special => exact hmove

theorem within_renameat2 {sourceDir targetDir : Path} (hsource : S (sourceDir ++ [cString source]))
    (htarget : S (targetDir ++ [cString target])) :
    Within S (renameat2 sourceDir source targetDir target : FsM ε Unit) := by
  refine within_ite (within_raise _) (within_ite (within_raise _) ?_)
  apply within_bind (within_stat _ _)
  intro node
  apply within_bind (within_create htarget node)
  intro _
  exact within_drop hsource

end Within

/-! ## Computations that raise -/

section Raises

open FsM

variable {ε α β : Type}

/-- The computation raises on every tree. -/
def Raises (m : FsM ε α) : Prop :=
  ∀ t, ∃ e, (m t).1 = .error e

theorem raises_raise (e : Raised ε) : Raises (raise e : FsM ε α) :=
  fun _ => ⟨e, rfl⟩

variable {m : FsM ε α} {f : α → FsM ε β}

theorem raises_bind_left (h : Raises m) : Raises (m >>= f) := by
  intro t
  obtain ⟨e, he⟩ := h t
  refine ⟨e, ?_⟩
  rw [bind_apply]
  cases hrun : m t with
  | mk result t' =>
    rw [hrun] at he
    simp only at he
    rw [he]

theorem raises_bind_right (h : ∀ a, Raises (f a)) : Raises (m >>= f) := by
  intro t
  rw [bind_apply]
  cases hrun : m t with
  | mk result t' =>
    cases result with
    | error e => exact ⟨e, rfl⟩
    | ok a => exact h a t'

theorem raises_withCleanup (cleanup : FsM ε Unit) (h : Raises m) :
    Raises (withCleanup m cleanup) := by
  intro t
  obtain ⟨e, he⟩ := h t
  unfold withCleanup
  cases hclean : cleanup (m t).2 with
  | mk result t' =>
    cases result with
    | error e' => exact ⟨e', rfl⟩
    | ok _ => exact ⟨e, he⟩

theorem raises_catchErrno {handler : FsM ε α} (errno : Errno) (hm : Raises m)
    (hhandler : Raises handler) : Raises (catchErrno m errno handler) := by
  intro t
  obtain ⟨e, he⟩ := hm t
  unfold catchErrno
  split
  · rename_i e' t' hrun
    split_ifs
    · exact hhandler t'
    · exact ⟨_, rfl⟩
  · rename_i result t' _ hrun
    rw [hrun] at he
    exact ⟨e, he⟩

theorem raises_ite {c : Prop} [Decidable c] {m' : FsM ε α} (h : Raises m) (h' : Raises m') :
    Raises (if c then m else m') := by
  split_ifs
  · exact h
  · exact h'

variable {name : Name}

theorem raises_checkName (h : '\x00' ∈ name) : Raises (checkName name : FsM ε Unit) := by
  unfold checkName
  rw [if_pos h]
  exact raises_raise _

variable (dir : Path)

theorem raises_stat (h : '\x00' ∈ name) : Raises (stat dir name : FsM ε Node) :=
  raises_bind_left (raises_checkName h)

theorem raises_openDirectory (h : '\x00' ∈ name) :
    Raises (openDirectory dir name : FsM ε Unit) :=
  raises_bind_left (raises_stat dir h)

theorem raises_openFile (h : '\x00' ∈ name) (writable : Bool) :
    Raises (openFile dir name writable : FsM ε Node) :=
  raises_bind_left (raises_stat dir h)

variable {target : Name}

theorem raises_link (source : Name) (h : '\x00' ∈ target) :
    Raises (link dir source target : FsM ε Unit) :=
  raises_bind_left (raises_checkName h)

theorem raises_rename (source : Name) (h : '\x00' ∈ target) :
    Raises (rename dir source target : FsM ε Unit) :=
  raises_bind_left (raises_checkName h)

end Raises

end FileTree
