import Yuanlei.Lib.Exceptions
import Yuanlei.Lib.Transition
import Yuanlei.Skill.Service

/-!
# Skill permissions can be resolved

Every reader of the skills normalises the stored configurations, so one row that cannot be
normalised lets whole lists raise.  All writers store what a normalisation has returned, with
one exception: a built-in skill that has no row yet is inserted with a bare scope.  The next
installation repairs the row.

Main results:

- `step_tableInv`: the rows that cannot be normalised are those that an installation
  has inserted and no later one has listed.
- `resolvable_iff_freshSlugs_eq_nil`: permissions can be resolved after a run if and
  only if the run leaves no such row.
-/

namespace Yuanlei.SkillService

open Permission

variable {F : Type} (conv : Conversions F)

/-! ## Runs -/

inductive SkillAction (F : Type) where
  | initBuiltinSkills (specs : BuiltinSpecs) (createdBy : String) (now : Nat)
  | confirmSkillInstallDraft (draft : Except ConfigError SkillDraft) (shareConfig : Json F)
      (slugs : Option (List String)) (operator : User) (now : Nat)
  | updateSkillShareConfig (slug : String) (shareConfig : Json F) (operator : User) (now : Nat)
  | updateSkillEnabled (slug : String) (enabled : Bool) (operator : User) (now : Nat)
  | updateSkillDependencies (slug : String) (requested : SkillDependencies) (operator : User)
      (availableTools availableMcps : List String) (now : Nat)
  | deleteSkill (slug : String) (operator : User)

/-- The table after a transaction: an exception rolls it back. -/
def committed (t : SkillTable F) : Except ConfigError (SkillTable F) → SkillTable F
  | .ok t' => t'
  | .error _ => t

/-- One operation. -/
def step (t : SkillTable F) : SkillAction F → SkillTable F
  | .initBuiltinSkills specs createdBy now =>
    committed t (initBuiltinSkills t specs createdBy now)
  | .confirmSkillInstallDraft draft shareConfig slugs operator now =>
    committed t (Prod.fst <$> confirmSkillInstallDraft conv t draft shareConfig slugs operator now)
  | .updateSkillShareConfig slug shareConfig operator now =>
    committed t (updateSkillShareConfig conv t slug shareConfig operator now)
  | .updateSkillEnabled slug enabled operator now =>
    committed t (updateSkillEnabled conv t slug enabled operator now)
  | .updateSkillDependencies slug requested operator availableTools availableMcps now =>
    committed t
      (updateSkillDependencies conv t slug requested operator availableTools availableMcps now)
  | .deleteSkill slug operator => committed t (deleteSkill conv t slug operator)

/-- An installation of the built-in skills meets a skill of another source under one of its
slugs. -/
def Conflicts (t : SkillTable F) (specs : BuiltinSpecs) : Prop :=
  ∃ slug ∈ specs.slugs, ∃ row, t.skills.get slug = some row ∧ isBuiltinSkill row = false

instance decidableConflicts (t : SkillTable F) (specs : BuiltinSpecs) :
    Decidable (Conflicts t specs) :=
  decidable_of_iff
    (specs.slugs.any fun slug =>
      match t.skills.get slug with
      | none => false
      | some row => !isBuiltinSkill row) <| by
    simp only [Conflicts, List.any_eq_true]
    refine exists_congr fun slug => and_congr_right fun _ => ?_
    cases t.skills.get slug <;> simp

/-- The slugs that an installation has inserted and no later one has listed: an installation
that does not conflict settles the slugs it lists and adds those without a row. -/
def freshStep (t : SkillTable F) (fresh : List String) : SkillAction F → List String
  | .initBuiltinSkills specs _ _ =>
    if Conflicts t specs then fresh
    else fresh.filter (fun slug => slug ∉ specs.slugs) ++
      specs.slugs.filter fun slug => (t.skills.get slug).isNone
  | _ => fresh

/-- The slugs left fresh by a run. -/
def freshSlugs : SkillTable F → List String → List (SkillAction F) → List String
  | _, fresh, [] => fresh
  | t, fresh, a :: as => freshSlugs (step conv t a) (freshStep t fresh a) as

/-! ## Rows that can be read -/

/-- The stored configuration is a normal one, and global for a built-in skill. -/
def Readable (row : Skill F) : Prop :=
  ∃ config : PermissionConfig, config.Normal ∧ row.shareConfig = config.dict ∧
    (isBuiltinSkill row → config.readScope = some .global)

/-- What an operation other than an installation of the built-in skills does to one slug. -/
inductive Evolves : Option (Skill F) → Option (Skill F) → Prop
  | absent : Evolves none none
  | kept {row row' : Skill F} (hconfig : row'.shareConfig = row.shareConfig)
      (hsource : row'.sourceType = row.sourceType) : Evolves (some row) (some row')
  | installed {row' : Skill F} (hreadable : Readable row') : Evolves none (some row')
  | shared {row row' : Skill F} (hbuiltin : isBuiltinSkill row = false)
      (hreadable : Readable row') : Evolves (some row) (some row')
  | deleted {row : Skill F} (hbuiltin : isBuiltinSkill row = false) : Evolves (some row) none

theorem Evolves.refl (row : Option (Skill F)) : Evolves row row := by
  cases row with
  | none => exact .absent
  | some row => exact .kept rfl rfl

/-- The invariant: fresh slugs have a built-in row with the bare scope, the other rows can be
read. -/
structure TableInv (t : SkillTable F) (fresh : List String) : Prop where
  fresh_row : ∀ slug ∈ fresh, ∃ row, t.skills.get slug = some row ∧ isBuiltinSkill row ∧
    row.shareConfig = builtinSkillShareConfig
  readable : ∀ slug row, t.skills.get slug = some row → slug ∉ fresh → Readable row

theorem tableInv_empty : TableInv (SkillTable.empty : SkillTable F) [] where
  fresh_row := by simp
  readable := by simp [SkillTable.empty]

variable {t t' : SkillTable F} {fresh : List String}

/-- Steps that evolve every slug keep the invariant. -/
theorem TableInv.of_evolves (h : TableInv t fresh)
    (hevolves : ∀ slug, Evolves (t.skills.get slug) (t'.skills.get slug)) : TableInv t' fresh where
  fresh_row := by
    intro slug hslug
    obtain ⟨row, hrow, hbuiltin, hconfig⟩ := h.fresh_row slug hslug
    have hslug' := hevolves slug
    rw [hrow] at hslug'
    generalize hget : t'.skills.get slug = row' at hslug'
    cases hslug' with
    | kept hconfig' hsource' =>
      refine ⟨_, rfl, ?_, hconfig'.trans hconfig⟩
      simpa [isBuiltinSkill, hsource'] using hbuiltin
    | shared hother => simp [hbuiltin] at hother
    | deleted hother => simp [hbuiltin] at hother
  readable := by
    intro slug row' hrow' hslug
    have hslug' := hevolves slug
    rw [hrow'] at hslug'
    generalize hget : t.skills.get slug = row at hslug'
    cases hslug' with
    | kept hconfig' hsource' =>
      obtain ⟨config, hnormal, hdict, hglobal⟩ := h.readable slug _ hget hslug
      refine ⟨config, hnormal, hconfig'.trans hdict, ?_⟩
      simpa [isBuiltinSkill, hsource'] using hglobal
    | installed hreadable => exact hreadable
    | shared _ hreadable => exact hreadable

/-! ## The writers -/

variable {slug : String}

/-- A row that is written keeps its source, and what the writer says about it holds of the row. -/
theorem evolves_modify {f : Skill F → Skill F}
    (hf : ∀ row, t.skills.get slug = some row → Evolves (some row) (some (f row)))
    (slug' : String) :
    Evolves (t.skills.get slug') ((t.modify slug f).skills.get slug') := by
  simp only [SkillTable.modify, Table.get_modify]
  by_cases hslug : slug' = slug
  · subst hslug
    rw [if_pos rfl]
    cases hrow : t.skills.get slug' with
    | none => exact .absent
    | some row => exact hf row hrow
  · rw [if_neg hslug]
    exact .refl _

variable {item : String × Skill F}

theorem getSkillOrRaise_eq_ok (h : getSkillOrRaise t slug = .ok item) : t.skills.get item.1 = some item.2 := by
  unfold getSkillOrRaise at h
  simp only at h
  split at h
  · cases h
  · split at h
    · cases h
    · next row hrow =>
        cases h
        exact hrow

theorem getManageableSkillOrRaise_eq_ok {user : User}
    (h : getManageableSkillOrRaise conv t user slug = .ok item) :
    t.skills.get item.1 = some item.2 := by
  unfold getManageableSkillOrRaise at h
  obtain ⟨found, hfound, h⟩ := Exceptions.bind_eq_ok.mp h
  obtain ⟨manageable, -, h⟩ := Exceptions.bind_eq_ok.mp h
  split at h
  · cases h
    exact getSkillOrRaise_eq_ok hfound
  · cases h

theorem ensureNonBuiltin_eq_ok {item : Skill F} {u : Unit} (h : ensureNonBuiltin item = .ok u) :
    isBuiltinSkill item = false := by
  unfold ensureNonBuiltin at h
  split at h
  · cases h
  · next hbuiltin => simpa using hbuiltin

variable {shareConfig : Json F} {sourceType : String}

theorem normalizeSkillShareConfig_normal {operatorUid : String}
    {allowed : Option (List AccessLevel)} {config : PermissionConfig}
    (h : normalizeSkillShareConfig conv shareConfig operatorUid sourceType allowed = .ok config) :
    config.Normal ∧ (sourceType = "builtin" → config.readScope = some .global) := by
  unfold normalizeSkillShareConfig at h
  split at h
  · cases h
    refine ⟨⟨?_, ?_⟩, fun _ => rfl⟩
    · intro scope hscope
      cases hscope
      trivial
    · intro scope hscope
      cases hscope
  · next hsource =>
      exact ⟨normalizePermissionConfig_normal conv h, fun hbuiltin => absurd hbuiltin hsource⟩

variable {operator : User} {now : Nat}

theorem updateSkillShareConfig_evolves
    (h : updateSkillShareConfig conv t slug shareConfig operator now = .ok t') (slug' : String) :
    Evolves (t.skills.get slug') (t'.skills.get slug') := by
  unfold updateSkillShareConfig at h
  obtain ⟨item, hitem, h⟩ := Exceptions.bind_eq_ok.mp h
  obtain ⟨u, hensure, h⟩ := Exceptions.bind_eq_ok.mp h
  obtain ⟨normalized, hnormalized, h⟩ := Exceptions.bind_eq_ok.mp h
  cases h
  have hbuiltin := ensureNonBuiltin_eq_ok hensure
  obtain ⟨hnormal, hglobal⟩ := normalizeSkillShareConfig_normal conv hnormalized
  refine evolves_modify (fun row hrow => ?_) slug'
  rw [getManageableSkillOrRaise_eq_ok conv hitem] at hrow
  cases hrow
  refine .shared hbuiltin ⟨normalized, hnormal, rfl, fun hrow => hglobal ?_⟩
  simpa [isBuiltinSkill] using hrow

theorem updateSkillEnabled_evolves {enabled : Bool}
    (h : updateSkillEnabled conv t slug enabled operator now = .ok t') (slug' : String) :
    Evolves (t.skills.get slug') (t'.skills.get slug') := by
  unfold updateSkillEnabled at h
  obtain ⟨item, -, h⟩ := Exceptions.bind_eq_ok.mp h
  cases h
  refine evolves_modify (fun row _ => ?_) slug'
  exact .kept rfl rfl

theorem updateSkillDependencies_evolves {requested : SkillDependencies}
    {availableTools availableMcps : List String}
    (h : updateSkillDependencies conv t slug requested operator availableTools availableMcps now
      = .ok t') (slug' : String) :
    Evolves (t.skills.get slug') (t'.skills.get slug') := by
  unfold updateSkillDependencies at h
  obtain ⟨item, -, h⟩ := Exceptions.bind_eq_ok.mp h
  obtain ⟨u, -, h⟩ := Exceptions.bind_eq_ok.mp h
  obtain ⟨available, -, h⟩ := Exceptions.bind_eq_ok.mp h
  obtain ⟨dependencies, -, h⟩ := Exceptions.bind_eq_ok.mp h
  cases h
  refine evolves_modify (fun row _ => ?_) slug'
  exact .kept rfl rfl

theorem deleteSkill_evolves (h : deleteSkill conv t slug operator = .ok t') (slug' : String) :
    Evolves (t.skills.get slug') (t'.skills.get slug') := by
  unfold deleteSkill at h
  split at h
  · cases h
  · next item hitem =>
      obtain ⟨manageable, -, h⟩ := Exceptions.bind_eq_ok.mp h
      split at h
      · obtain ⟨u, hensure, h⟩ := Exceptions.bind_eq_ok.mp h
        cases h
        simp only [Table.get_erase]
        by_cases hslug : slug' = slug
        · subst hslug
          rw [if_pos rfl, hitem]
          exact .deleted (ensureNonBuiltin_eq_ok hensure)
        · rw [if_neg hslug]
          exact .refl _
      · cases h

theorem create_eq_ok {skill : Skill F} (h : t.create slug skill = .ok t') :
    t.skills.get slug = none ∧ ∀ slug', t'.skills.get slug' =
      if slug' = slug then some { skill with id := t.nextId } else t.skills.get slug' := by
  unfold SkillTable.create at h
  split at h
  · cases h
  · next skills hinsert =>
      cases h
      exact Table.get_of_insert hinsert

theorem installDraftItem_evolves {shareConfig : PermissionConfig} (hnormal : shareConfig.Normal)
    (hglobal : sourceType = "builtin" → shareConfig.readScope = some .global) (operator : User)
    (now : Nat) (t : SkillTable F) (item : DraftItem) (slug' : String) :
    Evolves (t.skills.get slug')
      ((installDraftItem sourceType shareConfig operator now t item).1.skills.get slug') := by
  unfold installDraftItem
  simp only
  split
  · exact .refl _
  · split
    · exact .refl _
    · split
      · exact .refl _
      · split
        · exact .refl _
        · split
          · exact .refl _
          · split
            · exact .refl _
            · next hcreate =>
                obtain ⟨habsent, hget⟩ := create_eq_ok hcreate
                rw [hget slug']
                by_cases hslug : slug' = PyText.strip item.slug
                · rw [if_pos hslug, hslug, habsent]
                  refine .installed ⟨shareConfig, hnormal, rfl, fun hrow => hglobal ?_⟩
                  simpa [isBuiltinSkill] using hrow
                · rw [if_neg hslug]
                  exact .refl _

theorem installDraftItems_tableInv {shareConfig : PermissionConfig} (hnormal : shareConfig.Normal)
    (hglobal : sourceType = "builtin" → shareConfig.readScope = some .global) (operator : User)
    (now : Nat) (items : List DraftItem) (h : TableInv t fresh) :
    TableInv (installDraftItems sourceType shareConfig operator now t items).1 fresh := by
  induction items generalizing t with
  | nil => exact h
  | cons item items ih =>
    exact ih (h.of_evolves (installDraftItem_evolves hnormal hglobal operator now t item))

theorem confirmSkillInstallDraft_tableInv (h : TableInv t fresh)
    {draft : Except ConfigError SkillDraft} {slugs : Option (List String)}
    {out : SkillTable F × List InstallResult}
    (hconfirm : confirmSkillInstallDraft conv t draft shareConfig slugs operator now = .ok out) :
    TableInv out.1 fresh := by
  unfold confirmSkillInstallDraft at hconfirm
  obtain ⟨loaded, -, hconfirm⟩ := Exceptions.bind_eq_ok.mp hconfirm
  obtain ⟨selected, -, hconfirm⟩ := Exceptions.bind_eq_ok.mp hconfirm
  obtain ⟨normalized, hnormalized, hconfirm⟩ := Exceptions.bind_eq_ok.mp hconfirm
  cases hconfirm
  obtain ⟨hnormal, hglobal⟩ := normalizeSkillShareConfig_normal conv hnormalized
  exact installDraftItems_tableInv hnormal hglobal operator now selected.2 h

/-! ## The built-in skills -/

/-- The configuration that an installation leaves in the row of a slug. -/
def installedConfig (t : SkillTable F) (slug : String) : Json F :=
  if (t.skills.get slug).isNone then builtinSkillShareConfig else builtinPermissionConfig.dict

variable {createdBy : String} {spec : BuiltinSpec}

theorem initBuiltinSkill_eq_ok (h : initBuiltinSkill createdBy now t spec = .ok t') :
    (∀ row, t.skills.get spec.slug = some row → isBuiltinSkill row) ∧
      ∃ row', isBuiltinSkill row' ∧ row'.shareConfig = installedConfig t spec.slug ∧
        ∀ slug, t'.skills.get slug =
          if slug = spec.slug then some row' else t.skills.get slug := by
  unfold initBuiltinSkill at h
  split at h
  · next hget =>
      obtain ⟨-, hcreate⟩ := create_eq_ok h
      refine ⟨by simp [hget], _, ?_, ?_, hcreate⟩
      · rfl
      · simp [installedConfig, hget, newBuiltinRow]
  · next existing hget =>
      split at h
      · next hbuiltin =>
          cases h
          refine ⟨?_, updateBuiltinInstall spec createdBy now
            (syncBuiltinRow spec { existing with dirPath := "shared/" ++ spec.slug }), rfl, ?_, ?_⟩
          · intro row hrow
            rw [hget] at hrow
            cases hrow
            exact hbuiltin
          · simp [installedConfig, hget, updateBuiltinInstall]
          · intro slug
            simp only [SkillTable.modify, Table.get_modify]
            by_cases hslug : slug = spec.slug
            · subst hslug
              simp [hget]
            · simp [hslug]
      · cases h

/-- A round returns if its slug has no row of another source. -/
theorem initBuiltinSkill_isOk (h : ∀ row, t.skills.get spec.slug = some row → isBuiltinSkill row) :
    ∃ t', initBuiltinSkill createdBy now t spec = .ok t' := by
  unfold initBuiltinSkill
  cases hget : t.skills.get spec.slug with
  | none =>
    have hinsert (skill : Skill F) : t.skills.insert spec.slug skill ≠ none := by
      rw [Ne, Table.insert_eq_none_iff, hget]
      simp
    simp only [SkillTable.create]
    split
    · next hnone => exact absurd hnone (hinsert _)
    · exact ⟨_, rfl⟩
  | some row => simp [h row hget]

variable {specs : List BuiltinSpec}

/-- The loop of an installation that returns. -/
theorem foldlM_initBuiltinSkill (hnodup : (specs.map BuiltinSpec.slug).Nodup)
    (h : specs.foldlM (initBuiltinSkill createdBy now) t = .ok t') (slug : String) :
    if slug ∈ specs.map BuiltinSpec.slug then
      (∀ row, t.skills.get slug = some row → isBuiltinSkill row) ∧
        ∃ row', t'.skills.get slug = some row' ∧ isBuiltinSkill row' ∧
          row'.shareConfig = installedConfig t slug
    else t'.skills.get slug = t.skills.get slug := by
  induction specs generalizing t with
  | nil =>
    simp only [List.foldlM_nil, pure, Except.pure, Except.ok.injEq] at h
    simp [h]
  | cons spec specs ih =>
    rw [List.foldlM_cons] at h
    obtain ⟨u, hfirst, hrest⟩ := Exceptions.bind_eq_ok.mp h
    obtain ⟨hsource, row', hbuiltin, hconfig, hget⟩ := initBuiltinSkill_eq_ok hfirst
    simp only [List.map_cons, List.nodup_cons] at hnodup
    have hih := ih hnodup.2 hrest
    by_cases hslug : slug = spec.slug
    · subst hslug
      rw [if_neg hnodup.1, hget, if_pos rfl] at hih
      rw [if_pos (by simp)]
      exact ⟨hsource, row', hih, hbuiltin, hconfig⟩
    · have hsame : u.skills.get slug = t.skills.get slug := by
        rw [hget, if_neg hslug]
      have hinstalled : installedConfig u slug = installedConfig t slug := by
        simp [installedConfig, hsame]
      by_cases hmem : slug ∈ specs.map BuiltinSpec.slug
      · rw [if_pos hmem, hsame, hinstalled] at hih
        rw [if_pos (by simp [hmem])]
        exact hih
      · rw [if_neg hmem, hsame] at hih
        rw [if_neg (by simp [hslug, hmem])]
        exact hih

/-- The loop of an installation without a conflict returns. -/
theorem foldlM_initBuiltinSkill_isOk (hnodup : (specs.map BuiltinSpec.slug).Nodup)
    (h : ∀ slug ∈ specs.map BuiltinSpec.slug, ∀ row, t.skills.get slug = some row →
      isBuiltinSkill row) :
    ∃ t', specs.foldlM (initBuiltinSkill createdBy now) t = .ok t' := by
  induction specs generalizing t with
  | nil => exact ⟨t, rfl⟩
  | cons spec specs ih =>
    simp only [List.map_cons, List.nodup_cons] at hnodup
    have hround : ∃ u, initBuiltinSkill createdBy now t spec = .ok u :=
      initBuiltinSkill_isOk (h spec.slug (by simp))
    obtain ⟨u, hfirst⟩ := hround
    obtain ⟨-, row', -, -, hget⟩ := initBuiltinSkill_eq_ok hfirst
    have hrest : ∀ slug ∈ specs.map BuiltinSpec.slug, ∀ row, u.skills.get slug = some row →
        isBuiltinSkill row := by
      intro slug hslug row hrow
      have hne : slug ≠ spec.slug := fun heq => hnodup.1 (heq ▸ hslug)
      rw [hget, if_neg hne] at hrow
      exact h slug (by simp [hslug]) row hrow
    obtain ⟨t', ht'⟩ := ih hnodup.2 hrest
    refine ⟨t', ?_⟩
    rw [List.foldlM_cons]
    exact Exceptions.bind_eq_ok.mpr ⟨u, hfirst, ht'⟩

variable {specs : BuiltinSpecs}

/-- What an installation that commits has found and left under its slugs. -/
theorem get_initBuiltinSkills (h : initBuiltinSkills t specs createdBy now = .ok t')
    (hslug : slug ∈ specs.slugs) :
    (∀ row, t.skills.get slug = some row → isBuiltinSkill row) ∧
      ∃ row', t'.skills.get slug = some row' ∧ isBuiltinSkill row' ∧
        row'.shareConfig = installedConfig t slug := by
  have hspec := foldlM_initBuiltinSkill specs.nodup h slug
  rwa [if_pos (show slug ∈ specs.specs.map BuiltinSpec.slug from hslug)] at hspec

/-- The other slugs are left alone. -/
theorem get_initBuiltinSkills_of_notMem (h : initBuiltinSkills t specs createdBy now = .ok t')
    (hslug : slug ∉ specs.slugs) : t'.skills.get slug = t.skills.get slug := by
  have hspec := foldlM_initBuiltinSkill specs.nodup h slug
  rwa [if_neg (show slug ∉ specs.specs.map BuiltinSpec.slug from hslug)] at hspec

theorem initBuiltinSkills_of_conflicts (h : Conflicts t specs) (createdBy : String) (now : Nat) :
    committed t (initBuiltinSkills t specs createdBy now) = t := by
  obtain ⟨slug, hslug, row, hrow, hbuiltin⟩ := h
  cases hinit : initBuiltinSkills t specs createdBy now with
  | error e => rfl
  | ok t' =>
    have hother := (get_initBuiltinSkills hinit hslug).1 row hrow
    simp [hbuiltin] at hother

theorem initBuiltinSkills_of_not_conflicts (h : ¬ Conflicts t specs) (createdBy : String)
    (now : Nat) :
    ∃ t', initBuiltinSkills t specs createdBy now = .ok t' := by
  refine foldlM_initBuiltinSkill_isOk specs.nodup fun slug hslug row hrow => ?_
  by_contra hbuiltin
  exact h ⟨slug, hslug, row, hrow, by simpa using hbuiltin⟩

theorem builtinPermissionConfig_normal : builtinPermissionConfig.Normal := by
  constructor
  · intro scope hscope
    cases hscope
    trivial
  · intro scope hscope
    cases hscope

section

variable (h : TableInv t fresh)
include h

theorem initBuiltinSkills_tableInv (hinit : initBuiltinSkills t specs createdBy now = .ok t') :
    TableInv t' (fresh.filter (fun slug => slug ∉ specs.slugs) ++
      specs.slugs.filter fun slug => (t.skills.get slug).isNone) where
  fresh_row := by
    intro slug hslug
    rw [List.mem_append, List.mem_filter, List.mem_filter] at hslug
    rcases hslug with ⟨hfresh, hother⟩ | ⟨hmem, hnone⟩
    · rw [get_initBuiltinSkills_of_notMem hinit (by simpa using hother)]
      exact h.fresh_row slug hfresh
    · obtain ⟨-, row', hrow', hbuiltin, hconfig⟩ := get_initBuiltinSkills hinit hmem
      refine ⟨row', hrow', hbuiltin, ?_⟩
      rw [hconfig, installedConfig, if_pos hnone]
  readable := by
    intro slug row' hrow' hslug
    simp only [List.mem_append, List.mem_filter, not_or, not_and, decide_eq_true_eq, not_not]
      at hslug
    by_cases hmem : slug ∈ specs.slugs
    · obtain ⟨-, row, hrow, hbuiltin, hconfig⟩ := get_initBuiltinSkills hinit hmem
      rw [hrow'] at hrow
      cases hrow
      refine ⟨builtinPermissionConfig, builtinPermissionConfig_normal, ?_, fun _ => rfl⟩
      rw [hconfig, installedConfig, if_neg (hslug.2 hmem)]
    · rw [get_initBuiltinSkills_of_notMem hinit hmem] at hrow'
      exact h.readable slug row' hrow' fun hfresh => hmem (hslug.1 hfresh)

theorem committed_tableInv {result : Except ConfigError (SkillTable F)}
    (hok : ∀ t', result = .ok t' → TableInv t' fresh) : TableInv (committed t result) fresh := by
  cases result with
  | error e => exact h
  | ok t' => exact hok t' rfl

/-- Every operation keeps the invariant. -/
theorem step_tableInv (a : SkillAction F) : TableInv (step conv t a) (freshStep t fresh a) := by
  cases a with simp only [step, freshStep]
  | initBuiltinSkills specs createdBy now =>
    by_cases hconflict : Conflicts t specs
    · rw [if_pos hconflict, initBuiltinSkills_of_conflicts hconflict]
      exact h
    · rw [if_neg hconflict]
      obtain ⟨t', hinit⟩ := initBuiltinSkills_of_not_conflicts hconflict createdBy now
      rw [hinit]
      exact initBuiltinSkills_tableInv h hinit
  | confirmSkillInstallDraft draft shareConfig slugs operator now =>
    refine committed_tableInv h fun t' hconfirm => ?_
    cases hout : confirmSkillInstallDraft conv t draft shareConfig slugs operator now with
    | error e => simp [hout, Functor.map, Except.map] at hconfirm
    | ok out =>
      simp only [hout, Functor.map, Except.map, Except.ok.injEq] at hconfirm
      subst hconfirm
      exact confirmSkillInstallDraft_tableInv conv h hout
  | updateSkillShareConfig slug shareConfig operator now =>
    exact committed_tableInv h fun t' hupdate =>
      h.of_evolves (updateSkillShareConfig_evolves conv hupdate)
  | updateSkillEnabled slug enabled operator now =>
    exact committed_tableInv h fun t' hupdate =>
      h.of_evolves (updateSkillEnabled_evolves conv hupdate)
  | updateSkillDependencies slug requested operator availableTools availableMcps now =>
    exact committed_tableInv h fun t' hupdate =>
      h.of_evolves (updateSkillDependencies_evolves conv hupdate)
  | deleteSkill slug operator =>
    exact committed_tableInv h fun t' hdelete =>
      h.of_evolves (deleteSkill_evolves conv hdelete)

/-- The invariant holds after every run. -/
theorem exec_tableInv (as : List (SkillAction F)) :
    TableInv (Transition.exec (step conv) t as) (freshSlugs conv t fresh as) := by
  induction as generalizing t fresh with
  | nil => exact h
  | cons a as ih => exact ih (step_tableInv conv h a)

end

/-! ## The readers -/

/-- Every stored configuration is accepted, normalising it again changes nothing, no reader
raises, and every user can read every built-in skill. -/
structure Resolvable (t : SkillTable F) : Prop where
  accepted : ∀ slug row, t.skills.get slug = some row → ∃ config,
    normalizePermissionConfig conv row.shareConfig = .ok config ∧
      normalizePermissionConfig conv config.dict = .ok config
  resolve : ∀ (user : User) slug row, t.skills.get slug = some row → ∃ permission,
    row.permission conv user = .ok permission
  list : ∀ (user : User) (requireEnabled : Bool) (personalItems : List ResolvedSkill),
    ∃ items, listAccessibleSkills conv t user requireEnabled personalItems = .ok items
  depend : ∀ parentSlug parent dependencySlug dependency,
    t.skills.get parentSlug = some parent → t.skills.get dependencySlug = some dependency →
      ∃ allowed, canSkillDependOn conv parent dependency = .ok allowed
  builtin : ∀ (user : User) slug row, t.skills.get slug = some row → isBuiltinSkill row →
    ∃ permission, permission ≠ .none ∧ row.permission conv user = .ok permission

theorem Readable.normalize {row : Skill F} (h : Readable row) : ∃ config : PermissionConfig,
    config.Normal ∧ normalizePermissionConfig conv row.shareConfig = .ok config := by
  obtain ⟨config, hnormal, hdict, -⟩ := h
  refine ⟨config, hnormal, ?_⟩
  rw [hdict]
  exact normalizePermissionConfig_dict conv hnormal

variable {items : List (String × Skill F)}

/-- A filter over rows that can be read returns some of them. -/
theorem filterAccessible_isOk (user : User) (requireEnabled : Bool)
    (h : ∀ item ∈ items, Readable item.2) :
    ∃ accessible, filterAccessible conv user requireEnabled items = .ok accessible ∧
      ∀ item ∈ accessible, item ∈ items := by
  induction items with
  | nil => exact ⟨[], rfl, by simp⟩
  | cons item items ih =>
    obtain ⟨rest, hrest, hsub⟩ := ih fun other hother => h other (by simp [hother])
    have haccess : ∃ b, userCanAccessSkill conv user item.2 requireEnabled = .ok b := by
      obtain ⟨config, -, hconfig⟩ := (h item (by simp)).normalize conv
      obtain ⟨permission, hpermission⟩ := resolveResourcePermission_isOk conv hconfig user
        item.2.createdBy skillPermissionPolicy
      unfold userCanAccessSkill
      split
      · exact ⟨_, rfl⟩
      · simp [Skill.permission, resolveSkillPermission, hpermission, bind, Except.bind]
    obtain ⟨b, hb⟩ := haccess
    refine ⟨if b then item :: rest else rest, ?_, ?_⟩
    · simp [filterAccessible, hb, hrest, bind, Except.bind]
    · intro other hother
      cases b with
      | false => exact List.mem_cons_of_mem item (hsub other hother)
      | true =>
        rcases List.mem_cons.mp hother with heq | hmem
        · exact heq ▸ List.mem_cons_self
        · exact List.mem_cons_of_mem item (hsub other hmem)

theorem resolveShared_isOk (personalSlugs : List String) (h : ∀ item ∈ items, Readable item.2) :
    ∃ resolved, resolveShared conv personalSlugs items = .ok resolved := by
  induction items with
  | nil => exact ⟨[], rfl⟩
  | cons item items ih =>
    obtain ⟨rest, hrest⟩ := ih fun other hother => h other (by simp [hother])
    obtain ⟨config, -, hconfig⟩ := (h item (by simp)).normalize conv
    simp [resolveShared, resolvedSharedSkill, hconfig, hrest, bind, Except.bind]

theorem listAccessibleSkills_isOk (h : ∀ slug row, t.skills.get slug = some row → Readable row)
    (user : User)
    (requireEnabled : Bool) (personalItems : List ResolvedSkill) :
    ∃ items, listAccessibleSkills conv t user requireEnabled personalItems = .ok items := by
  have hrows : ∀ item ∈ (if requireEnabled then listEnabled t else listAll t), Readable item.2 := by
    intro item hitem
    refine h item.1 item.2 ((t.skills.mem_rows_iff item.1 item.2).mp ?_)
    cases requireEnabled with
    | false => simpa [listAll] using hitem
    | true => exact (by simpa [listEnabled] using hitem : item ∈ t.skills.rows ∧ _).1
  obtain ⟨accessible, haccessible, hsub⟩ :=
    filterAccessible_isOk conv user requireEnabled hrows
  obtain ⟨shared, hshared⟩ := resolveShared_isOk conv (personalItems.map ResolvedSkill.slug)
    fun item hitem => hrows item (hsub item hitem)
  simp [listAccessibleSkills, listAccessibleSharedSkills, haccessible, hshared, bind, Except.bind]

theorem resolvable_of_readable (h : ∀ slug row, t.skills.get slug = some row → Readable row) : Resolvable conv t where
  accepted := by
    intro slug row hrow
    obtain ⟨config, hnormal, hconfig⟩ := (h slug row hrow).normalize conv
    exact ⟨config, hconfig, normalizePermissionConfig_dict conv hnormal⟩
  resolve := by
    intro user slug row hrow
    obtain ⟨config, -, hconfig⟩ := (h slug row hrow).normalize conv
    exact resolveResourcePermission_isOk conv hconfig user row.createdBy skillPermissionPolicy
  list := listAccessibleSkills_isOk conv h
  depend := by
    intro parentSlug parent dependencySlug dependency hparent hdependency
    obtain ⟨parentConfig, -, hparentConfig⟩ := (h parentSlug parent hparent).normalize conv
    obtain ⟨depConfig, -, hdepConfig⟩ := (h dependencySlug dependency hdependency).normalize conv
    unfold canSkillDependOn
    split
    · exact ⟨_, rfl⟩
    · split
      · exact ⟨_, rfl⟩
      · simp [hparentConfig, hdepConfig, bind, Except.bind]
  builtin := by
    intro user slug row hrow hbuiltin
    obtain ⟨config, hnormal, hdict, hglobal⟩ := h slug row hrow
    have hconfig : normalizePermissionConfig conv row.shareConfig = .ok config := by
      rw [hdict]
      exact normalizePermissionConfig_dict conv hnormal
    exact resolveResourcePermission_global conv hconfig (hglobal hbuiltin) user row.createdBy

/-- The bare scope is refused. -/
theorem normalizePermissionConfig_builtinSkillShareConfig :
    normalizePermissionConfig conv (builtinSkillShareConfig : Json F)
      = .error (.valueError "资源共享配置必须使用 version 2") := by
  simp [normalizePermissionConfig, builtinSkillShareConfig, Scope.dict, configFields,
    Permission.get, isTwo, List.lookup_cons]

theorem TableInv.not_resolvable (h : TableInv t fresh)
    (hslug : slug ∈ fresh) : ¬ Resolvable conv t := by
  intro hresolvable
  obtain ⟨row, hrow, -, hconfig⟩ := h.fresh_row slug hslug
  obtain ⟨config, haccepted, -⟩ := hresolvable.accepted slug row hrow
  rw [hconfig, normalizePermissionConfig_builtinSkillShareConfig] at haccepted
  cases haccepted

/-- Permissions can be resolved after a run if and only if every slug that an installation of
the built-in skills has inserted has been listed by a later one. -/
theorem resolvable_iff_freshSlugs_eq_nil (as : List (SkillAction F)) :
    Resolvable conv (Transition.exec (step conv) SkillTable.empty as) ↔
      freshSlugs conv SkillTable.empty [] as = [] := by
  have hempty : TableInv (SkillTable.empty : SkillTable F) [] := tableInv_empty
  have hinv := exec_tableInv conv hempty as
  constructor
  · intro hresolvable
    by_contra hfresh
    obtain ⟨slug, hslug⟩ := List.exists_mem_of_ne_nil _ hfresh
    exact hinv.not_resolvable conv hslug hresolvable
  · intro hfresh
    refine resolvable_of_readable conv fun slug row hrow => hinv.readable slug row hrow ?_
    simp [hfresh]

/-- A release with one built-in skill. -/
def sampleSpecs : BuiltinSpecs where
  specs :=
    [{ slug := "reporter"
       name := "reporter"
       description := "Writes reports"
       version := "1.0.0"
       toolDependencies := []
       mcpDependencies := []
       skillDependencies := []
       contentHash := "h1" }]
  nodup := by decide

/-- The conversions of the values without floats that occur below. -/
def sampleConversions : Conversions Empty where
  truthy := nofun
  eqTwo := nofun
  int
    | .int i => .ok i
    | .bool b => .ok (if b then 1 else 0)
    | _ => .error .typeError
  str
    | .str s => s
    | .int i => toString i
    | _ => "None"
  int_int := fun _ => rfl
  str_str := fun _ => rfl

/-- The first start of a server on an empty table. -/
def firstStart : List (SkillAction Empty) :=
  [.initBuiltinSkills sampleSpecs "system" 1]

/-- After the first start of a server, permissions cannot be resolved. -/
theorem firstStart_not_resolvable : ¬ ∀ (conv : Conversions Empty) (as : List (SkillAction Empty)),
      Resolvable conv (Transition.exec (step conv) SkillTable.empty as) := by
  intro h
  have hempty : TableInv (SkillTable.empty : SkillTable Empty) [] := tableInv_empty
  have hinv := exec_tableInv sampleConversions hempty firstStart
  have hfresh : "reporter" ∈ freshSlugs sampleConversions SkillTable.empty [] firstStart := by
    decide +kernel
  exact hinv.not_resolvable sampleConversions hfresh (h sampleConversions firstStart)

end Yuanlei.SkillService
