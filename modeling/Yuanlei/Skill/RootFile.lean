import Yuanlei.Skill.Nodes
import Yuanlei.Skill.Revocation

/-!
# The root file of an installed skill

Creating adds entries below the directory of a skill and writing keeps what a file says of the skill,
so that only a deletion can take the root `SKILL.md` away: one that spells its path, or the path
of the directory, in a way that does not read `SKILL.md`.

Main results:

- `createSkillNode_grows`: creating changes no entry that exists.
- `installed_throughout_iff`: the same for a sequence of calls.
-/

namespace Yuanlei.SkillNodes

open FileTree FsM PosixPath Permission SkillService

variable {F : Type} (p : Platform F)

/-! ## Installed skills -/

/-- The directory of an installed skill. -/
def skillDirOf (slug : String) : Path :=
  p.dataDir ++ ["shared".toList, slug.toList]

/-- The directory of a skill has a root file that says of it what its row says. -/
structure KeepsRoot (tree : Tree) (slug : String) (item : Skill F) : Prop where
  dirPath : item.dirPath = "shared/" ++ slug
  directory : tree.get (skillDirOf p slug) = some .directory
  root : ∃ content,
    tree.get (skillDirOf p slug ++ [skillMd]) = some (.file (Utf8.encode content)) ∧
      parseSkillMarkdown p content =
        .ok { slug, name := item.name, description := item.description }
  noLinks : ∀ q, skillDirOf p slug <+: q → tree.get q ≠ some .symlink

/-- Every skill that is not built in has its root file. -/
def Installed (σ : SkillStore F) : Prop :=
  ∀ slug item, σ.table.skills.get slug = some item → isBuiltinSkill item = false →
    KeepsRoot p σ.tree slug item

/-! ## Slugs -/

theorem mem_splitOn_or_eq {sep : Char} {s : Text} {c : Char} (hc : c ∈ s) :
    c = sep ∨ ∃ w ∈ s.splitOn sep, c ∈ w := by
  induction s with
  | nil => cases hc
  | cons a s ih =>
    rw [List.splitOn_cons_eq_if_modifyHead]
    split_ifs with ha
    · rcases List.mem_cons.mp hc with rfl | hc
      · exact .inl (by simpa using ha)
      · exact (ih hc).imp_right fun ⟨w, hw, hcw⟩ => ⟨w, List.mem_cons_of_mem _ hw, hcw⟩
    · cases hsplit : s.splitOn sep with
      | nil => exact absurd hsplit (List.splitOn_ne_nil _ _)
      | cons first rest =>
        rw [hsplit] at ih
        rcases List.mem_cons.mp hc with rfl | hc
        · exact .inr ⟨_, List.mem_cons_self, List.mem_cons_self⟩
        · rcases ih hc with heq | ⟨w, hw, hcw⟩
          · exact .inl heq
          · rcases List.mem_cons.mp hw with rfl | hw
            · exact .inr ⟨_, List.mem_cons_self, List.mem_cons_of_mem _ hcw⟩
            · exact .inr ⟨w, List.mem_cons_of_mem _ hw, hcw⟩

variable {slug : String}

theorem isComponent_slug (hstrip : PyText.strip slug = slug)
    (hvalid : isValidSkillSlug slug = true) : IsComponent slug.toList := by
  unfold isValidSkillSlug at hvalid
  rw [hstrip, List.all_eq_true] at hvalid
  have hchars : ∀ c ∈ slug.toList, c = '-' ∨ isSlugChar c = true := by
    intro c hc
    refine (mem_splitOn_or_eq hc).imp_right fun ⟨w, hw, hcw⟩ => ?_
    have hword := hvalid w hw
    rw [Bool.and_eq_true, List.all_eq_true] at hword
    exact hword.2 c hcw
  refine ⟨fun hslash => ?_, ?_, ?_⟩
  · rcases hchars '/' hslash with h | h <;> revert h <;> decide
  · intro hnil
    rw [hnil] at hvalid
    exact absurd (hvalid [] (by simp)) (by decide)
  · intro hdot
    rw [hdot] at hchars
    rcases hchars '.' List.mem_cons_self with h | h <;> revert h <;> decide

theorem validateSkillSlugValue_eq_ok {fieldName result : String}
    (h : validateSkillSlugValue slug fieldName = .ok result) :
    PyText.strip result = result ∧ isValidSkillSlug result = true := by
  unfold validateSkillSlugValue at h
  simp only at h
  split_ifs at h with hempty hlength hvalid
  cases h
  refine ⟨PyText.strip_strip slug, ?_⟩
  simpa using hvalid

theorem parseSkillMarkdown_slug {content : Text} {parsed : ParsedSkill}
    (h : parseSkillMarkdown p content = .ok parsed) :
    PyText.strip parsed.slug = parsed.slug ∧ isValidSkillSlug parsed.slug = true := by
  obtain ⟨split, -, h⟩ := Exceptions.bind_eq_ok.mp h
  cases hload : p.safeLoad split.1 with
  | error e =>
    rw [hload] at h
    cases h
  | ok data =>
    rw [hload] at h
    cases data with
    | none => cases h
    | some data =>
      obtain ⟨name, -, h⟩ := Exceptions.bind_eq_ok.mp h
      obtain ⟨slug, hslug, h⟩ := Exceptions.bind_eq_ok.mp h
      simp only at h
      split_ifs at h
      cases h
      unfold slugOf at hslug
      simp only at hslug
      split_ifs at hslug
      · exact validateSkillSlugValue_eq_ok hslug
      · exact validateSkillSlugValue_eq_ok hslug

variable {p} {tree : Tree} {item : Skill F}

theorem KeepsRoot.isComponent (h : KeepsRoot p tree slug item) : IsComponent slug.toList := by
  obtain ⟨content, -, hparse⟩ := h.root
  obtain ⟨hstrip, hvalid⟩ := parseSkillMarkdown_slug p hparse
  exact isComponent_slug hstrip hvalid

theorem KeepsRoot.resolveSkillDir_eq (h : KeepsRoot p tree slug item) : resolveSkillDir p item = skillDirOf p slug := by
  have hshared : IsComponent "shared".toList := ⟨by decide, by decide, by decide⟩
  have htext : item.dirPath.toList = "shared".toList ++ '/' :: slug.toList := by
    rw [h.dirPath, String.toList_append]
    rfl
  unfold resolveSkillDir skillDirOf
  have hrelative : ¬ isAbsolute ("shared".toList ++ '/' :: slug.toList) = true := by
    simp [isAbsolute, rootOf]
  simp only [htext, if_neg hrelative]
  rw [components_append_slash, components_of_isComponent hshared,
    components_of_isComponent h.isComponent]
  rfl

theorem skillDirOf_prefix_iff (slug slug' : String) (q : Path) (h : skillDirOf p slug <+: q)
    (h' : skillDirOf p slug' <+: q) : slug = slug' := by
  have hlength : (skillDirOf p slug).length = (skillDirOf p slug').length := by
    simp [skillDirOf]
  have heq : skillDirOf p slug = skillDirOf p slug' :=
    (List.prefix_of_prefix_length_le h h' hlength.le).eq_of_length hlength
  have hnames := List.append_cancel_left heq
  exact String.ext (by simpa using hnames)

/-! ## What the operations do first -/

variable {c : Prop}

theorem raiseIf_pos [Decidable c] (h : c) (e : Raised ConfigError) :
    raiseIf c e = raise e :=
  if_pos h

theorem raiseIf_neg [Decidable c] (h : ¬ c) (e : Raised ConfigError) :
    raiseIf c e = pure () :=
  if_neg h

/-- The path leads to the directory of the skill or to its root file. -/
def LeadsToRoot (relativePath : Text) : Prop :=
  components (relativeText relativePath) = [] ∨
    components (relativeText relativePath) = [skillMd]

theorem not_leadsToRoot_of_mem {relativePath : Text} {name : Name}
    (hmem : name ∈ components (relativeText relativePath)) (hne : name ≠ skillMd) :
    ¬ LeadsToRoot relativePath := by
  rintro (hnil | hroot)
  · rw [hnil] at hmem
    cases hmem
  · rw [hroot] at hmem
    exact hne (List.mem_singleton.mp hmem)

theorem resolveRelativePath_cases (skillDir : Path) (relativePath : Text) :
    (∃ e, resolveRelativePath skillDir relativePath = raise e ∧
      (relativeText relativePath = [] ∨ ¬ LeadsToRoot relativePath)) ∨
    (resolveRelativePath skillDir relativePath =
      pure (skillDir ++ components (relativeText relativePath), relativeText relativePath) ∧
        relativeText relativePath ≠ []) := by
  unfold resolveRelativePath
  by_cases hempty : relativeText relativePath = []
  · simp only [raiseIf_pos hempty, raise_bind]
    exact .inl ⟨_, rfl, .inl hempty⟩
  by_cases hup : ['.', '.'] ∈ components (relativeText relativePath)
  · simp only [raiseIf_neg hempty, pure_bind, raiseIf_pos hup, raise_bind]
    exact .inl ⟨_, rfl, .inr (not_leadsToRoot_of_mem hup (by decide))⟩
  by_cases hnull : '\x00' ∈ relativeText relativePath
  · simp only [raiseIf_neg hempty, pure_bind, raiseIf_neg hup, raiseIf_pos hnull, raise_bind]
    obtain ⟨name, hname, hmem⟩ := exists_mem_components hnull (by decide) (by decide)
    have hne : name ≠ skillMd := by
      rintro rfl
      exact absurd hmem (by decide)
    exact .inl ⟨_, rfl, .inr (not_leadsToRoot_of_mem hname hne)⟩
  simp only [raiseIf_neg hempty, pure_bind, raiseIf_neg hup, raiseIf_neg hnull]
  exact .inr ⟨trivial, hempty⟩

theorem lookup_bind {α : Type} (q : Path) (f : Option Node → Fs α) (t : Tree) :
    (lookup q >>= f) t = f (t.get q) t :=
  rfl

theorem getManageable_eq_ok {t : SkillTable F} {user : User} {item : String × Skill F}
    (h : getManageableSkillOrRaise p.conv t user slug = .ok item) :
    item.1 = PyText.strip slug ∧ t.skills.get (PyText.strip slug) = some item.2 := by
  obtain ⟨item', hitem', h⟩ := Exceptions.bind_eq_ok.mp h
  obtain ⟨manageable, -, h⟩ := Exceptions.bind_eq_ok.mp h
  split at h
  · cases h
    unfold getSkillOrRaise at hitem'
    simp only at hitem'
    split at hitem'
    · cases hitem'
    split at hitem'
    · cases hitem'
    · rename_i row hrow
      cases hitem'
      exact ⟨rfl, hrow⟩
  · cases h

variable {σ : SkillStore F}

theorem locateNode_cases (h : Installed p σ) (slug : String) (relativePath : Text)
    (operator : User) :
    (∃ e, locateNode p σ.table slug relativePath operator = raise e ∧
        ∀ item, getManageableSkillOrRaise p.conv σ.table operator slug = .ok item →
          isBuiltinSkill item.2 = true ∨ relativeText relativePath = [] ∨
            ¬ LeadsToRoot relativePath) ∨
      ∃ item, getManageableSkillOrRaise p.conv σ.table operator slug =
          .ok (PyText.strip slug, item) ∧
        isBuiltinSkill item = false ∧ relativeText relativePath ≠ [] ∧
        locateNode p σ.table slug relativePath operator =
          pure
            { slug := PyText.strip slug
              skillDir := skillDirOf p (PyText.strip slug)
              target := skillDirOf p (PyText.strip slug) ++ components (relativeText relativePath)
              rel := relativeText relativePath } := by
  unfold locateNode
  cases hget : getManageableSkillOrRaise p.conv σ.table operator slug with
  | error e =>
    exact .inl ⟨_, rfl, fun item hitem => by cases hitem⟩
  | ok item =>
    obtain ⟨hslug, hrow⟩ := getManageable_eq_ok hget
    obtain ⟨slug', item⟩ := item
    cases hslug
    unfold checkNotBuiltin
    by_cases hbuiltin : isBuiltinSkill item = true
    · simp only [lift_ok, pure_bind, raiseIf_pos hbuiltin, raise_bind]
      refine .inl ⟨_, rfl, fun item' hitem => ?_⟩
      cases hitem
      exact .inl hbuiltin
    have hshared : isBuiltinSkill item = false := by simpa using hbuiltin
    have hroot := h _ item hrow hshared
    simp only [lift_ok, pure_bind, raiseIf_neg hbuiltin, hroot.resolveSkillDir_eq]
    rcases resolveRelativePath_cases (skillDirOf p (PyText.strip slug)) relativePath with
      ⟨e, heq, hrefused⟩ | ⟨heq, hne⟩
    · simp only [heq, raise_bind]
      exact .inl ⟨e, rfl, fun _ _ => .inr hrefused⟩
    · simp only [heq, pure_bind]
      exact .inr ⟨item, rfl, hshared, hne, rfl⟩

/-! ## Growth -/

/-- Every entry of a tree stays, and the new ones lie below a directory and are no links. -/
structure GrowsBelow (dir : Path) (t t' : Tree) : Prop where
  kept : ∀ q node, t.get q = some node → t'.get q = some node
  below : ∀ q, t'.get q ≠ t.get q → dir <+: q
  links : ∀ q, t'.get q = some .symlink → t.get q = some .symlink

section Growth

variable {dir : Path} {t t' : Tree}

theorem GrowsBelow.refl (dir : Path) (t : Tree) : GrowsBelow dir t t :=
  ⟨fun _ _ h => h, fun _ h => absurd rfl h, fun _ h => h⟩

theorem GrowsBelow.upsert (h : GrowsBelow dir t t') {q : Path} (hnone : t.get q = none)
    (hbelow : dir <+: q) {node : Node} (hnode : node ≠ .symlink) :
    GrowsBelow dir t (t'.upsert q node) where
  kept q' node' hget := by
    have hne : q' ≠ q := fun heq => by rw [heq, hnone] at hget; cases hget
    rw [Table.get_upsert, if_neg hne]
    exact h.kept q' node' hget
  below q' hchange := by
    rw [Table.get_upsert] at hchange
    split at hchange
    · rename_i heq
      rw [heq]
      exact hbelow
    · exact h.below q' hchange
  links q' hlink := by
    rw [Table.get_upsert] at hlink
    split at hlink
    · exact absurd (Option.some.inj hlink) hnode
    · exact h.links q' hlink

theorem grows_bind {α β : Type} {m : Fs α} {f : α → Fs β} {u : Tree} (hm : GrowsBelow dir t (m u).2)
    (hf : ∀ a, (m u).1 = .ok a → GrowsBelow dir t (f a (m u).2).2) :
    GrowsBelow dir t ((m >>= f) u).2 := by
  rw [bind_apply]
  cases hrun : m u with
  | mk result u' =>
    rw [hrun] at hm hf
    cases result with
    | error e => exact hm
    | ok a => exact hf a rfl

/-- Directories are made from the first one that exists. -/
theorem makeDirsFrom_grows (hdir : t.get dir = some .directory) (rest : Path) (errno : Errno) :
    GrowsBelow dir t (makeDirsFrom errno (dir ++ rest).reverse t).2 := by
  induction rest using List.reverseRecOn generalizing errno with
  | nil =>
    rw [List.append_nil]
    cases hrev : dir.reverse with
    | nil => exact .refl dir t
    | cons name parent =>
      have hself : (name :: parent).reverse = dir := by rw [← hrev, List.reverse_reverse]
      unfold makeDirsFrom
      rw [hself]
      apply grows_bind (.refl dir t)
      intro found hfound
      have heq : found = some .directory := by
        rw [← hdir]
        exact (Except.ok.inj hfound).symm
      rw [heq]
      exact .refl dir t
  | append_singleton rest name ih =>
    have hrev : (dir ++ (rest ++ [name])).reverse = name :: (dir ++ rest).reverse := by simp
    have hself : (name :: (dir ++ rest).reverse).reverse = dir ++ (rest ++ [name]) := by simp
    rw [hrev]
    unfold makeDirsFrom
    rw [hself]
    apply grows_bind (.refl dir t)
    intro found hfound
    have heq : found = t.get (dir ++ (rest ++ [name])) := (Except.ok.inj hfound).symm
    split
    · exact .refl dir t
    · exact .refl dir t
    · apply grows_bind (ih .notDirectory)
      intro _ _
      exact (ih .notDirectory).upsert heq.symm (List.prefix_append _ _) (by decide)

end Growth

theorem KeepsRoot.grows {dir : Path} {t t' : Tree} (h : KeepsRoot p t slug item)
    (hgrows : GrowsBelow dir t t') : KeepsRoot p t' slug item where
  dirPath := h.dirPath
  directory := hgrows.kept _ _ h.directory
  root := by
    obtain ⟨content, hget, hparse⟩ := h.root
    exact ⟨content, hgrows.kept _ _ hget, hparse⟩
  noLinks q hq hlink := h.noLinks q hq (hgrows.links q hlink)

/-! ## Creating -/

variable {skillDir target : Path}

theorem isRootPath_iff (hne : target ≠ []) :
    (target.getLastD [] = skillMd ∧ target.dropLast = skillDir) ↔
      target = skillDir ++ [skillMd] := by
  constructor
  · rintro ⟨hlast, rfl⟩
    rw [← hlast, List.getLastD_eq_getLast?, List.getLast?_eq_some_getLast hne, Option.getD_some]
    exact (List.dropLast_append_getLast hne).symm
  · rintro rfl
    simp

theorem skillDirOf_append_ne_nil (slug : String) (rest : Path) : skillDirOf p slug ++ rest ≠ [] := by
  simp [skillDirOf]

theorem updateSkillMetadata_of_ne (t : SkillTable F) (slug : String) (content : Text)
    (hne : target ≠ []) (hroot : target ≠ skillDir ++ [skillMd])
    (updatedBy : Option String) (now : Nat) :
    updateSkillMetadataIfSkillsMd p t slug content skillDir target updatedBy now = pure t :=
  if_neg fun h => hroot ((isRootPath_iff hne).mp h)

/-- Creating changes no entry that exists, and no row. -/
theorem createSkillNode_grows (h : Installed p σ) (slug : String)
    (relativePath : Text) (isDir : Bool) (content : Option Text) (updatedBy : Option String)
    (operator : User) (now : Nat) :
    GrowsBelow (skillDirOf p (PyText.strip slug)) σ.tree
        (createSkillNode p σ.table slug relativePath isDir content updatedBy operator now
          σ.tree).2 ∧
      ∀ t tree', createSkillNode p σ.table slug relativePath isDir content updatedBy operator now
        σ.tree = (.ok t, tree') → t = σ.table := by
  unfold createSkillNode
  rcases locateNode_cases h slug relativePath operator with
    ⟨e, heq, -⟩ | ⟨item, hget, hshared, -, heq⟩
  · simp only [heq, raise_bind]
    exact ⟨.refl _ _, fun t tree' hok => by cases hok⟩
  have hroot := h _ item (getManageable_eq_ok hget).2 hshared
  simp only [heq, pure_bind]
  generalize htarget : skillDirOf p (PyText.strip slug) ++ components (relativeText relativePath) =
    target
  simp only [lookup_bind]
  by_cases hexists : (σ.tree.get target).isSome = true
  · simp only [raiseIf_pos hexists, raise_bind]
    exact ⟨.refl _ _, fun t tree' hok => by cases hok⟩
  simp only [raiseIf_neg hexists, pure_bind]
  have hnone : σ.tree.get target = none := by simpa using hexists
  have hne : target ≠ skillDirOf p (PyText.strip slug) ++ [skillMd] := by
    intro heq
    obtain ⟨root, hrootGet, -⟩ := hroot.root
    rw [← heq, hnone] at hrootGet
    cases hrootGet
  have hnonempty : target ≠ [] := by
    rw [← htarget]
    exact skillDirOf_append_ne_nil _ _
  have hbelow : skillDirOf p (PyText.strip slug) <+: target := ⟨_, htarget⟩
  cases isDir with
  | true =>
    have hgrows : GrowsBelow (skillDirOf p (PyText.strip slug)) σ.tree (makeDirs target σ.tree).2 := by
      rw [← htarget]
      exact makeDirsFrom_grows hroot.directory _ _
    constructor
    · exact grows_bind hgrows fun _ _ => hgrows
    · intro t tree' hok
      obtain ⟨_, _, -, hok⟩ := bind_eq_ok hok
      cases hok
      rfl
  | false =>
    simp only [Bool.false_eq_true, if_false]
    by_cases htext : isTextPath p.lower target = false
    · simp only [raiseIf_pos htext, raise_bind]
      exact ⟨.refl _ _, fun t tree' hok => by cases hok⟩
    have hgrows : GrowsBelow (skillDirOf p (PyText.strip slug)) σ.tree
        (makeDirs target.dropLast σ.tree).2 := by
      cases hrest : components (relativeText relativePath) with
      | nil =>
        rw [hrest, List.append_nil] at htarget
        rw [← htarget, hroot.directory] at hnone
        cases hnone
      | cons name rest =>
        rw [← htarget, hrest, List.dropLast_append_of_ne_nil (List.cons_ne_nil name rest)]
        exact makeDirsFrom_grows hroot.directory _ _
    have hfile : Node.file (Utf8.encode (content.getD [])) ≠ .symlink := by simp
    have hwritten := hgrows.upsert hnone hbelow hfile
    simp only [raiseIf_neg htext, pure_bind, updateSkillMetadata_of_ne _ _ _ hnonempty hne]
    constructor
    · exact grows_bind hgrows fun _ _ => grows_bind hwritten fun _ _ => hwritten
    · intro t tree' hok
      obtain ⟨_, _, -, hok⟩ := bind_eq_ok hok
      cases hok
      rfl

/-! ## Writing -/

section Writing

variable {σ : SkillStore F} {slug : String} {target : Path} {slug' : String}

theorem root_eq_of_below (hbelow : skillDirOf p slug <+: target)
    (h : target = skillDirOf p slug' ++ [skillMd]) : slug' = slug := by
  refine skillDirOf_prefix_iff slug' slug target ?_ hbelow
  rw [h]
  exact List.prefix_append _ _

theorem KeepsRoot.write {t : Tree} {item : Skill F} (h : KeepsRoot p t slug' item)
    (hbelow : skillDirOf p slug <+: target) (hroot : target ≠ skillDirOf p slug ++ [skillMd])
    (hfile : isFile (t.get target) = true) (content : List UInt8) :
    KeepsRoot p (t.upsert target (.file content)) slug' item where
  dirPath := h.dirPath
  directory := by
    have hne : skillDirOf p slug' ≠ target := by
      intro heq
      rw [← heq, h.directory] at hfile
      cases hfile
    rw [Table.get_upsert, if_neg hne]
    exact h.directory
  root := by
    obtain ⟨text, hget, hparse⟩ := h.root
    have hne : skillDirOf p slug' ++ [skillMd] ≠ target := by
      intro heq
      have hslug := root_eq_of_below hbelow heq.symm
      rw [hslug] at heq
      exact hroot heq.symm
    exact ⟨text, by rw [Table.get_upsert, if_neg hne, hget], hparse⟩
  noLinks q hq hlink := by
    rw [Table.get_upsert] at hlink
    split at hlink
    · cases hlink
    · exact h.noLinks q hq hlink

theorem Installed.writeRoot (h : Installed p σ) {content : Text} {parsed : ParsedSkill}
    (hparse : parseSkillMarkdown p content = .ok parsed) (hslug : parsed.slug = slug)
    (updatedBy : Option String) (now : Nat)
    (hfile : isFile (σ.tree.get (skillDirOf p slug ++ [skillMd])) = true) :
    Installed p
      { table := σ.table.modify slug fun row =>
          { row with
            name := parsed.name, description := parsed.description, updatedBy, updatedAt := now }
        tree := σ.tree.upsert (skillDirOf p slug ++ [skillMd]) (.file (Utf8.encode content)) } := by
  intro slug' item hget hshared
  change (σ.table.skills.modify slug _).get slug' = some item at hget
  have hdirectory : ∀ slug₁ item₁, KeepsRoot p σ.tree slug₁ item₁ →
      (σ.tree.upsert (skillDirOf p slug ++ [skillMd]) (.file (Utf8.encode content))).get
        (skillDirOf p slug₁) = some .directory := by
    intro slug₁ item₁ h₁
    have hne : skillDirOf p slug₁ ≠ skillDirOf p slug ++ [skillMd] := by
      intro heq
      rw [← heq, h₁.directory] at hfile
      cases hfile
    rw [Table.get_upsert, if_neg hne]
    exact h₁.directory
  have hlinks : ∀ q, (σ.tree.upsert (skillDirOf p slug ++ [skillMd])
      (.file (Utf8.encode content))).get q = some .symlink → σ.tree.get q = some .symlink := by
    intro q hlink
    rw [Table.get_upsert] at hlink
    split at hlink
    · cases hlink
    · exact hlink
  by_cases hsame : slug' = slug
  · subst hsame
    rw [Table.get_modify_self] at hget
    obtain ⟨row, hrow, rfl⟩ := Option.map_eq_some_iff.mp hget
    have hroot := h slug' row hrow hshared
    constructor
    · exact hroot.dirPath
    · exact hdirectory slug' row hroot
    · refine ⟨content, by rw [Table.get_upsert, if_pos rfl], ?_⟩
      rw [hparse, ← hslug]
    · exact fun q hq hlink => hroot.noLinks q hq (hlinks q hlink)
  · rw [Table.get_modify_of_ne _ hsame] at hget
    have hroot := h slug' item hget hshared
    constructor
    · exact hroot.dirPath
    · exact hdirectory slug' item hroot
    · obtain ⟨text, htext, hparse'⟩ := hroot.root
      have hne : skillDirOf p slug' ++ [skillMd] ≠ skillDirOf p slug ++ [skillMd] := by
        intro heq
        exact hsame (root_eq_of_below (List.prefix_append _ _) heq.symm)
      exact ⟨text, by rw [Table.get_upsert, if_neg hne, htext], hparse'⟩
    · exact fun q hq hlink => hroot.noLinks q hq (hlinks q hlink)

/-- The outcome of a call on the skill of a slug: what follows it is installed, and nothing outside
the directory of the skill has changed. -/
structure Keeps (p : Platform F) (σ σ' : SkillStore F) (slug : String) : Prop where
  installed : Installed p σ'
  outside : ∀ q, ¬ skillDirOf p slug <+: q → σ'.tree.get q = σ.tree.get q

theorem Keeps.refl (h : Installed p σ) (slug : String) : Keeps p σ σ slug :=
  ⟨h, fun _ _ => rfl⟩

theorem updateSkillFile_keeps (h : Installed p σ) (slug : String) (relativePath content : Text)
    (updatedBy : Option String) (operator : User) (now : Nat) :
    Keeps p σ
      (committed σ.table
        (updateSkillFile p σ.table slug relativePath content updatedBy operator now σ.tree))
      (PyText.strip slug) := by
  unfold updateSkillFile
  rcases locateNode_cases h slug relativePath operator with
    ⟨e, heq, -⟩ | ⟨item, hget, hshared, -, heq⟩
  · simp only [heq, raise_bind]
    exact .refl h _
  simp only [heq, pure_bind]
  generalize htarget : skillDirOf p (PyText.strip slug) ++ components (relativeText relativePath) =
    target
  have hnonempty : target ≠ [] := by
    rw [← htarget]
    exact skillDirOf_append_ne_nil _ _
  have hbelow : skillDirOf p (PyText.strip slug) <+: target := ⟨_, htarget⟩
  have houtside : ∀ q, ¬ skillDirOf p (PyText.strip slug) <+: q →
      (σ.tree.upsert target (.file (Utf8.encode content))).get q = σ.tree.get q := by
    intro q hq
    have hne : q ≠ target := fun heq => hq (heq ▸ hbelow)
    rw [Table.get_upsert, if_neg hne]
  simp only [lookup_bind]
  by_cases hfile : isFile (σ.tree.get target) = false
  · simp only [raiseIf_pos hfile, raise_bind]
    exact .refl h _
  simp only [raiseIf_neg hfile, pure_bind]
  by_cases htext : isTextPath p.lower target = false
  · simp only [raiseIf_pos htext, raise_bind]
    exact .refl h _
  simp only [raiseIf_neg htext, pure_bind]
  have hfile' : isFile (σ.tree.get target) = true := by simpa using hfile
  by_cases hroot : target = skillDirOf p (PyText.strip slug) ++ [skillMd]
  · unfold updateSkillMetadataIfSkillsMd
    rw [if_pos ((isRootPath_iff hnonempty).mpr hroot)]
    cases hparse : parseSkillMarkdown p content with
    | error e =>
      exact .refl h _
    | ok parsed =>
      by_cases hslug : parsed.slug ≠ PyText.strip slug
      · simp only [lift_ok, pure_bind, raiseIf_pos hslug, raise_bind]
        exact .refl h _
      simp only [lift_ok, pure_bind, raiseIf_neg hslug]
      refine ⟨?_, houtside⟩
      rw [hroot] at hfile' ⊢
      exact h.writeRoot hparse (not_not.mp hslug) updatedBy now hfile'
  · simp only [updateSkillMetadata_of_ne _ _ _ hnonempty hroot, pure_bind]
    refine ⟨fun slug' item hrow hshared => ?_, houtside⟩
    exact (h slug' item hrow hshared).write hbelow hroot hfile' _

theorem createSkillNode_keeps (h : Installed p σ) (slug : String) (relativePath : Text)
    (isDir : Bool) (content : Option Text) (updatedBy : Option String) (operator : User)
    (now : Nat) :
    Keeps p σ
      (committed σ.table
        (createSkillNode p σ.table slug relativePath isDir content updatedBy operator now σ.tree))
      (PyText.strip slug) := by
  obtain ⟨hgrows, htable⟩ :=
    createSkillNode_grows h slug relativePath isDir content updatedBy operator now
  cases hrun : createSkillNode p σ.table slug relativePath isDir content updatedBy operator now
      σ.tree with
  | mk result tree =>
    rw [hrun] at hgrows htable
    have houtside : ∀ q, ¬ skillDirOf p (PyText.strip slug) <+: q →
        tree.get q = σ.tree.get q := by
      intro q hq
      by_contra hchange
      exact hq (hgrows.below q hchange)
    have hinstalled : Installed p { table := σ.table, tree } :=
      fun slug' item hrow hshared => (h slug' item hrow hshared).grows hgrows
    cases result with
    | error e => exact ⟨hinstalled, houtside⟩
    | ok t =>
      have heq : t = σ.table := htable t tree rfl
      subst heq
      exact ⟨hinstalled, houtside⟩

end Writing

/-! ## Deleting -/

section Deleting

variable {σ : SkillStore F}

/-- A deletion that takes away the root file or the directory of a skill: the path leads there and
does not read `SKILL.md`. -/
def removesRoot (p : Platform F) (σ : SkillStore F) : SkillCall → Bool
  | .delete slug relativePath operator =>
    match getManageableSkillOrRaise p.conv σ.table operator slug with
    | .error _ => false
    | .ok item =>
      !isBuiltinSkill item.2 && relativeText relativePath != [] &&
        relativeText relativePath != skillMd &&
          (components (relativeText relativePath) == [] ||
            components (relativeText relativePath) == [skillMd])
  | _ => false

variable {slug : String}

theorem KeepsRoot.remove {t t' : Tree} {item : Skill F}
    (h : KeepsRoot p t slug item) (hsub : ∀ q, t'.get q = none ∨ t'.get q = t.get q)
    (hdirectory : t'.get (skillDirOf p slug) = t.get (skillDirOf p slug))
    (hroot : t'.get (skillDirOf p slug ++ [skillMd]) = t.get (skillDirOf p slug ++ [skillMd])) :
    KeepsRoot p t' slug item where
  dirPath := h.dirPath
  directory := hdirectory.trans h.directory
  root := by
    obtain ⟨content, hget, hparse⟩ := h.root
    exact ⟨content, hroot.trans hget, hparse⟩
  noLinks q hq hlink := by
    rcases hsub q with hnone | hsame
    · rw [hnone] at hlink
      cases hlink
    · exact h.noLinks q hq (hsame.symm.trans hlink)

/-- What is removed with a target: nothing that is not below it. -/
def Removes (target : Path) (t t' : Tree) : Prop :=
  t'.get target = none ∧
    ∀ q, t'.get q = t.get q ∨ t'.get q = none ∧ target <+: q

theorem removes_rmtree (target : Path) (t : Tree) : Removes target t (rmtree target t).2 := by
  unfold Removes rmtree
  simp only [Table.get_restrict]
  refine ⟨by simp, fun q => ?_⟩
  by_cases hbelow : target.isPrefixOf q = true
  · exact .inr ⟨by simp [hbelow], List.isPrefixOf_iff_prefix.mp hbelow⟩
  · exact .inl (by simp [hbelow])

theorem removes_drop (target : Path) (t : Tree) :
    Removes target t ((drop target : Fs Unit) t).2 := by
  unfold Removes drop
  simp only [Table.get_erase]
  refine ⟨by simp, fun q => ?_⟩
  by_cases hself : q = target
  · exact .inr ⟨by simp [hself], by rw [hself]⟩
  · exact .inl (by simp [hself])

theorem removesRoot_delete_iff {relativePath : Text} {operator : User} :
    removesRoot p σ (.delete slug relativePath operator) = true ↔
      ∃ item, getManageableSkillOrRaise p.conv σ.table operator slug = .ok item ∧
        isBuiltinSkill item.2 = false ∧ relativeText relativePath ≠ [] ∧
          relativeText relativePath ≠ skillMd ∧ LeadsToRoot relativePath := by
  unfold removesRoot LeadsToRoot
  cases hget : getManageableSkillOrRaise p.conv σ.table operator slug with
  | error e => simp [hget]
  | ok item => simp [hget, and_assoc]

/-- The call is refused, or the target is removed. -/
theorem deleteSkillNode_cases (h : Installed p σ) (slug : String) (relativePath : Text)
    (operator : User) :
    (∃ e, deleteSkillNode p σ.table slug relativePath operator σ.tree = (.error e, σ.tree) ∧
        removesRoot p σ (.delete slug relativePath operator) = false) ∨
      ∃ item tree', deleteSkillNode p σ.table slug relativePath operator σ.tree = (.ok (), tree') ∧
        σ.table.skills.get (PyText.strip slug) = some item ∧ isBuiltinSkill item = false ∧
        (removesRoot p σ (.delete slug relativePath operator) = true ↔ LeadsToRoot relativePath) ∧
        Removes (skillDirOf p (PyText.strip slug) ++ components (relativeText relativePath))
          σ.tree tree' := by
  unfold deleteSkillNode
  rcases locateNode_cases h slug relativePath operator with
    ⟨e, heq, hrefused⟩ | ⟨item, hget, hshared, hnonempty, heq⟩
  · simp only [heq, raise_bind]
    refine .inl ⟨e, rfl, ?_⟩
    rw [Bool.eq_false_iff, ne_eq, removesRoot_delete_iff]
    rintro ⟨item, hget, hshared, hnonempty, -, hroot⟩
    rcases hrefused item hget with hbuiltin | hempty | hnot
    · rw [hshared] at hbuiltin
      cases hbuiltin
    · exact hnonempty hempty
    · exact hnot hroot
  have hrow := (getManageable_eq_ok hget).2
  have hkept := h _ item hrow hshared
  have hremoves : removesRoot p σ (.delete slug relativePath operator) = true ↔
      relativeText relativePath ≠ skillMd ∧ LeadsToRoot relativePath := by
    rw [removesRoot_delete_iff]
    constructor
    · rintro ⟨-, -, -, -, hroot⟩
      exact hroot
    · exact fun hroot => ⟨_, hget, hshared, hnonempty, hroot⟩
  simp only [heq, FsM.pure_bind]
  generalize htarget : skillDirOf p (PyText.strip slug) ++ components (relativeText relativePath) =
    target
  simp only [lookup_bind]
  by_cases hnone : σ.tree.get target = none
  · simp only [raiseIf_pos hnone, raise_bind]
    refine .inl ⟨_, rfl, ?_⟩
    rw [Bool.eq_false_iff, ne_eq, hremoves]
    rintro ⟨-, hdir | hroot⟩
    · rw [hdir, List.append_nil] at htarget
      rw [← htarget, hkept.directory] at hnone
      cases hnone
    · obtain ⟨content, hcontent, -⟩ := hkept.root
      rw [hroot] at htarget
      rw [← htarget, hcontent] at hnone
      cases hnone
  by_cases hprotected : relativeText relativePath = skillMd
  · simp only [raiseIf_neg hnone, FsM.pure_bind, raiseIf_pos hprotected, raise_bind]
    refine .inl ⟨_, rfl, ?_⟩
    rw [Bool.eq_false_iff, ne_eq, hremoves]
    exact fun hroot => hroot.1 hprotected
  simp only [raiseIf_neg hnone, FsM.pure_bind, raiseIf_neg hprotected]
  have hiff : removesRoot p σ (.delete slug relativePath operator) = true ↔
      LeadsToRoot relativePath := by
    rw [hremoves]
    exact ⟨fun hroot => hroot.2, fun hroot => ⟨hprotected, hroot⟩⟩
  refine .inr ⟨item, ?_⟩
  split
  · exact ⟨_, rfl, hrow, hshared, hiff, removes_rmtree target σ.tree⟩
  · exact ⟨_, rfl, hrow, hshared, hiff, removes_drop target σ.tree⟩

theorem deleteSkillNode_keeps_iff (h : Installed p σ) (slug : String) (relativePath : Text)
    (operator : User) :
    Keeps p σ (skillStep p σ (.delete slug relativePath operator)) (PyText.strip slug) ↔
      removesRoot p σ (.delete slug relativePath operator) = false := by
  rcases deleteSkillNode_cases h slug relativePath operator with
    ⟨e, hrun, hnot⟩ | ⟨item, tree', hrun, hrow, hshared, hiff, hgone, hrest⟩
  · have hstep : skillStep p σ (.delete slug relativePath operator) = σ := by
      simp only [skillStep, runCall, bind_apply, hrun]
      rfl
    rw [hstep]
    exact ⟨fun _ => hnot, fun _ => .refl h _⟩
  have hstep : skillStep p σ (.delete slug relativePath operator) =
      { table := σ.table, tree := tree' } := by
    simp only [skillStep, runCall, bind_apply, hrun]
    rfl
  rw [hstep]
  constructor
  · intro hkeeps
    have hkept := hkeeps.installed _ item hrow hshared
    rw [Bool.eq_false_iff, ne_eq, hiff]
    rintro (hdir | hroot)
    · rw [hdir, List.append_nil] at hgone
      have hdirectory := hkept.directory
      rw [hgone] at hdirectory
      cases hdirectory
    · obtain ⟨content, hcontent, -⟩ := hkept.root
      rw [hroot] at hgone
      rw [hgone] at hcontent
      cases hcontent
  · intro hnot
    have hleads : ¬ LeadsToRoot relativePath := by
      rw [← hiff, hnot]
      exact Bool.false_ne_true
    have hbelow : skillDirOf p (PyText.strip slug) <+:
        skillDirOf p (PyText.strip slug) ++ components (relativeText relativePath) :=
      List.prefix_append _ _
    constructor
    · intro slug' item' hrow' hshared'
      refine (h slug' item' hrow' hshared').remove (fun q => ?_) ?_ ?_
      · rcases hrest q with hsame | ⟨hnone, -⟩
        · exact .inr hsame
        · exact .inl hnone
      · refine (hrest _).resolve_right fun ⟨_, hprefix⟩ => ?_
        have hslug := skillDirOf_prefix_iff slug' _ _ (List.prefix_refl _) (hbelow.trans hprefix)
        rw [hslug] at hprefix
        refine hleads (.inl ?_)
        have hlength := hprefix.length_le
        rw [List.length_append] at hlength
        exact List.length_eq_zero_iff.mp (by omega)
      · refine (hrest _).resolve_right fun ⟨_, hprefix⟩ => ?_
        have hslug := skillDirOf_prefix_iff slug' _ _ (List.prefix_append _ [skillMd])
          (hbelow.trans hprefix)
        rw [hslug, List.prefix_append_right_inj] at hprefix
        rcases List.prefix_cons_iff.mp hprefix with hnil | ⟨rest, hcons, hrest'⟩
        · exact hleads (.inl hnil)
        · rw [List.prefix_nil.mp hrest'] at hcons
          exact hleads (.inr hcons)
    · intro q hq
      exact (hrest q).resolve_right fun ⟨_, hprefix⟩ => hq (hbelow.trans hprefix)

end Deleting

/-! ## Calls -/

section Calls

variable {σ : SkillStore F}

/-- A call keeps the installed skills, and all files outside the directory of its own, if and only if
it does not take a root file or a directory away. -/
theorem keepsSkills_skillStep_iff (h : Installed p σ) (call : SkillCall) :
    Keeps p σ (skillStep p σ call) call.slug ↔ removesRoot p σ call = false := by
  cases call with
  | create slug relativePath isDir content updatedBy operator now =>
    exact ⟨fun _ => rfl, fun _ =>
      createSkillNode_keeps h slug relativePath isDir content updatedBy operator now⟩
  | update slug relativePath content updatedBy operator now =>
    exact ⟨fun _ => rfl, fun _ =>
      updateSkillFile_keeps h slug relativePath content updatedBy operator now⟩
  | delete slug relativePath operator =>
    exact deleteSkillNode_keeps_iff h slug relativePath operator

/-- A sequence of calls keeps the installed skills throughout, and each call the files outside the
directory of its skill, if and only if none of them takes a root file or a directory away. -/
theorem installed_throughout_iff (h : Installed p σ) (calls : List SkillCall) :
    Transition.Guarded (skillStep p) (fun σ call => Keeps p σ (skillStep p σ call) call.slug) σ
        calls ↔
      Transition.Guarded (skillStep p) (fun σ call => removesRoot p σ call = false) σ calls := by
  induction calls generalizing σ with
  | nil => exact Iff.rfl
  | cons call calls ih =>
    constructor
    · rintro ⟨hkeeps, hrest⟩
      exact ⟨(keepsSkills_skillStep_iff h call).mp hkeeps, (ih hkeeps.installed).mp hrest⟩
    · rintro ⟨hnot, hrest⟩
      have hkeeps := (keepsSkills_skillStep_iff h call).mpr hnot
      exact ⟨hkeeps, (ih hkeeps.installed).mpr hrest⟩

end Calls

/-! ## A skill with a root file -/

/-- The front matter of the sample. -/
def sampleFrontmatter : Text :=
  "name: reporter\ndescription: Writes reports\n".toList

/-- A platform that reads the front matter of the sample. -/
def samplePlatform : Platform Empty where
  conv := sampleConversions
  safeLoad text :=
    if text = sampleFrontmatter then
      .ok (some { name := "reporter", slug := "", description := "Writes reports" })
    else .ok none
  lower := id
  dataDir := ["data".toList]

def sampleSkillMd : Text :=
  "---\n".toList ++ sampleFrontmatter ++ "---\n".toList

/-- The skill of carol with its directory. -/
def sampleStore : SkillStore Empty where
  table := sampleTable
  tree :=
    { rows :=
        [(["data".toList], .directory),
          (["data".toList, "shared".toList], .directory),
          (skillDirOf samplePlatform "reporter", .directory),
          (skillDirOf samplePlatform "reporter" ++ [skillMd], .file (Utf8.encode sampleSkillMd))]
      nodupKeys := by decide }

theorem sampleStore_installed : Installed samplePlatform sampleStore := by
  intro slug item hget _
  have hmem := (Table.mem_rows_iff sampleStore.table.skills slug item).mpr hget
  obtain ⟨rfl, rfl⟩ := Prod.mk.inj (List.mem_singleton.mp hmem)
  constructor
  · rfl
  · decide +kernel
  · exact ⟨sampleSkillMd, by decide +kernel, by decide +kernel⟩
  · intro q _ hlink
    have hnone : ∀ e ∈ sampleStore.tree.rows, e.2 ≠ .symlink := by decide +kernel
    exact hnone _ ((Table.mem_rows_iff sampleStore.tree q .symlink).mpr hlink) rfl

/-- Deleting `./SKILL.md` takes the root file away, and deleting `.` the directory. -/
theorem delete_takes_root_away :
    Installed samplePlatform sampleStore ∧
      ¬ Installed samplePlatform
        (skillStep samplePlatform sampleStore (.delete "reporter" "./SKILL.md".toList carol)) ∧
      ¬ Installed samplePlatform
        (skillStep samplePlatform sampleStore (.delete "reporter" ".".toList carol)) := by
  have hgone : ∀ σ : SkillStore Empty,
      ((σ.table.skills.get "reporter").any fun item => !isBuiltinSkill item) = true →
        σ.tree.get (skillDirOf samplePlatform "reporter" ++ [skillMd]) = none →
          ¬ Installed samplePlatform σ := by
    intro σ hrow hnone hinstalled
    obtain ⟨item, hget, hshared⟩ := (Option.any_eq_true _ _).mp hrow
    obtain ⟨content, hroot, -⟩ := (hinstalled "reporter" item hget (by simpa using hshared)).root
    rw [hnone] at hroot
    cases hroot
  refine ⟨sampleStore_installed, ?_, ?_⟩
  · exact hgone _ (by decide +kernel) (by decide +kernel)
  · exact hgone _ (by decide +kernel) (by decide +kernel)

/-- A file is added, the root file is written, and the file is deleted. -/
def maintenance : List SkillCall :=
  [.create "reporter" "docs/notes.md".toList false (some "draft".toList) none carol 2,
    .update "reporter" "./SKILL.md".toList sampleSkillMd none carol 3,
    .delete "reporter" "docs".toList carol]

theorem maintenance_keeps_root :
    Transition.Guarded (skillStep samplePlatform)
      (fun σ call => Keeps samplePlatform σ (skillStep samplePlatform σ call) call.slug)
      sampleStore maintenance :=
  (installed_throughout_iff sampleStore_installed maintenance).mpr (by decide +kernel)

end Yuanlei.SkillNodes
