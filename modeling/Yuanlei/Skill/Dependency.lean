import Yuanlei.Skill.Resolvable

/-!
# Dependencies of shared skills

`can_skill_depend_on` compares the scopes of two skills in pairs.  Access itself follows one
scope, the read scope or else the management scope, and every owner has access to the own skill.

Main results:

- `userCanAccessSkill_iff`: who has access to a skill.
- `dependency_usable_iff`: an accepted dependency is usable by everyone who can use
  the parent exactly if the owner of the parent and its scope are covered.
-/

namespace Yuanlei.SkillService

open Permission

/-! ## Access -/

/-- The scope that decides on access: the management scope counts only without a read scope. -/
def effectiveScope (config : PermissionConfig) : Option Scope :=
  config.readScope.or config.manageScope

theorem grantedPermission_ne_none_iff (user : User) (config : PermissionConfig) :
    grantedPermission user config ≠ .none ↔ scopeMatches user (effectiveScope config) := by
  unfold grantedPermission effectiveScope
  cases config.readScope with
  | none => simp [scopeMatches]
  | some scope =>
    by_cases hread : scopeMatches user (some scope)
    · by_cases hmanage : scopeMatches user config.manageScope <;> simp [hread, hmanage]
    · simp [hread]

variable {F : Type} (conv : Conversions F) {skill parent dependency : Skill F}
variable {config parentConfig : PermissionConfig}

theorem userCanAccessSkill_iff
    (hconfig : normalizePermissionConfig conv skill.shareConfig = .ok config) (user : User) :
    userCanAccessSkill conv user skill true = .ok true ↔
      skill.enabled ∧ (user.role = "superadmin" ∨ skill.createdBy.getD "" = user.uid ∨
        scopeMatches user (effectiveScope config)) := by
  unfold userCanAccessSkill Skill.permission resolveSkillPermission resolveResourcePermission
  rw [← grantedPermission_ne_none_iff, ← minimumPermission_ceiling _ user.role]
  by_cases henabled : skill.enabled
  · by_cases hrole : user.role = "superadmin"
    · simp [henabled, hrole, bind, Except.bind]
    · by_cases howner : skill.createdBy.getD "" = user.uid
      · simp [henabled, hrole, howner, hconfig, bind, Except.bind]
      · simp [henabled, hrole, howner, hconfig, bind, Except.bind]
  · simp [henabled]

/-! ## Coverage -/

theorem normal_effectiveScope {scope : Scope} (h : config.Normal)
    (hscope : effectiveScope config = some scope) : scope.Normal := by
  rcases Option.or_eq_some_iff.mp hscope with hread | ⟨-, hmanage⟩
  · exact h.1 scope hread
  · exact h.2 scope hmanage

/-- The user of the uid has access in every role and department. -/
def letsIn (config : PermissionConfig) (owner uid : String) : Bool :=
  owner == uid || scopeMatches ⟨uid, "user", none⟩ (effectiveScope config)

/-- The users who have access to the parent have access to the dependency: all do, or the owner
of the parent does and so do the members of its effective scope. -/
def covers (config : PermissionConfig) (owner : String) (parentConfig : PermissionConfig)
    (parentOwner : String) : Bool :=
  effectiveScope config == some .global ||
    letsIn config owner parentOwner &&
      match effectiveScope parentConfig with
      | none => true
      | some .global => false
      | some (.department departmentIds) =>
        match effectiveScope config with
        | some (.department covered) => departmentIds.all covered.contains
        | _ => false
      | some (.user userUids) => userUids.all (letsIn config owner)

theorem letsIn_iff {owner uid : String} : letsIn config owner uid ↔
    owner = uid ∨ scopeMatches ⟨uid, "user", none⟩ (effectiveScope config) := by
  simp [letsIn]

theorem scopeMatches_of_none {scope : Option Scope} {user : User}
    (h : scopeMatches ⟨user.uid, "user", none⟩ scope) : scopeMatches user scope := by
  unfold scopeMatches at h ⊢
  split at h <;> simp_all

theorem exists_not_letsIn (hglobal : effectiveScope config ≠ some .global) (owner : String) :
    ∃ uid, ¬ letsIn config owner uid ∧ ∀ departmentId,
      scopeMatches ⟨uid, "user", some departmentId⟩ (effectiveScope config) →
        ∃ departmentIds, effectiveScope config = some (.department departmentIds) ∧
          departmentId ∈ departmentIds := by
  obtain ⟨uid, huid⟩ : ∃ uid, uid ∉
      owner :: ((effectiveScope config).map Scope.userUids).getD [] := by
    have hfresh := Infinite.exists_notMem_finset
      (owner :: ((effectiveScope config).map Scope.userUids).getD []).toFinset
    simpa only [List.mem_toFinset] using hfresh
  simp only [List.mem_cons, not_or] at huid
  refine ⟨uid, ?_, ?_⟩
  · rw [letsIn_iff, not_or]
    refine ⟨Ne.symm huid.1, ?_⟩
    unfold scopeMatches
    split <;> simp_all [Scope.userUids]
  · intro departmentId hmatches
    unfold scopeMatches at hmatches
    split at hmatches <;> simp_all [Scope.userUids]

/-! ## Dependencies -/

/-- Everyone who has access to the parent has access to the dependency. -/
theorem covers_iff (hnormal : parentConfig.Normal) (owner parentOwner : String) :
    (∀ user : User, user.role = "superadmin" ∨ parentOwner = user.uid ∨
        scopeMatches user (effectiveScope parentConfig) →
      user.role = "superadmin" ∨ owner = user.uid ∨ scopeMatches user (effectiveScope config)) ↔
      covers config owner parentConfig parentOwner := by
  by_cases hglobal : effectiveScope config = some .global
  · simp [covers, hglobal, scopeMatches]
  · simp only [covers, beq_eq_false_iff_ne.mpr hglobal, Bool.false_or, Bool.and_eq_true]
    constructor
    · intro h
      have hlets : ∀ uid, parentOwner = uid ∨
          scopeMatches ⟨uid, "user", none⟩ (effectiveScope parentConfig) →
          letsIn config owner uid := by
        intro uid huid
        exact letsIn_iff.mpr ((h ⟨uid, "user", none⟩ (.inr huid)).resolve_left (by simp))
      refine ⟨hlets parentOwner (.inl rfl), ?_⟩
      obtain ⟨stranger, hstranger, hdepartment⟩ := exists_not_letsIn hglobal owner
      cases hscope : effectiveScope parentConfig with
      | none => rfl
      | some scope =>
        cases scope with
        | global => exact absurd (hlets stranger (.inr (by simp [hscope, scopeMatches]))) hstranger
        | department departmentIds =>
          have hcovered : ∀ departmentId ∈ departmentIds, ∃ covered,
              effectiveScope config = some (.department covered) ∧ departmentId ∈ covered := by
            intro departmentId hmem
            have hthere := h ⟨stranger, "user", some departmentId⟩
              (.inr (.inr (by simp [hscope, scopeMatches, hmem])))
            rw [letsIn_iff, not_or] at hstranger
            exact hdepartment departmentId
              ((hthere.resolve_left (by simp)).resolve_left hstranger.1)
          obtain ⟨first, hfirst⟩ := List.exists_mem_of_ne_nil _ (normal_effectiveScope hnormal hscope).2
          obtain ⟨covered, heq, -⟩ := hcovered first hfirst
          simp only [heq, List.all_eq_true, List.contains_iff_mem]
          intro departmentId hmem
          obtain ⟨covered', heq', hcovers⟩ := hcovered departmentId hmem
          rw [heq, Option.some.injEq, Scope.department.injEq] at heq'
          rwa [heq']
        | user userUids =>
          simp only [List.all_eq_true]
          intro uid hmem
          exact hlets uid (.inr (by simp [hscope, scopeMatches, hmem]))
    · rintro ⟨howner, hscope⟩ user (hrole | rfl | hmatches)
      · exact .inl hrole
      · exact .inr ((letsIn_iff.mp howner).imp_right scopeMatches_of_none)
      · right
        cases hparent : effectiveScope parentConfig with
        | none => simp [hparent, scopeMatches] at hmatches
        | some scope =>
          cases scope with
          | global => simp [hparent] at hscope
          | department departmentIds =>
            right
            simp only [hparent] at hscope hmatches
            split at hscope
            · next covered heq =>
              simp only [heq, scopeMatches, List.all_eq_true, List.contains_iff_mem] at *
              split at hmatches
              · cases hmatches
              · next departmentId hsome =>
                simpa [hsome] using hscope departmentId (by simpa using hmatches)
            · cases hscope
          | user userUids =>
            simp only [hparent, scopeMatches, List.all_eq_true, List.contains_iff_mem]
              at hscope hmatches
            exact (letsIn_iff.mp (hscope _ hmatches)).imp_right scopeMatches_of_none

/-- An accepted dependency is usable by everyone who can use the parent exactly if the parent is
disabled or covered. -/
theorem dependency_usable_iff (conv : Conversions F) (parent dependency : Skill F)
    (hparent : normalizePermissionConfig conv parent.shareConfig = .ok parentConfig)
    (hdependency : normalizePermissionConfig conv dependency.shareConfig = .ok config)
    (haccepted : canSkillDependOn conv parent dependency = .ok true) :
    (∀ user, userCanAccessSkill conv user parent true = .ok true →
        userCanAccessSkill conv user dependency true = .ok true) ↔
      (parent.enabled → covers config (dependency.createdBy.getD "") parentConfig
        (parent.createdBy.getD "")) := by
  have henabled : dependency.enabled := by
    by_contra hnot
    rw [Bool.not_eq_true] at hnot
    simp [canSkillDependOn, hnot] at haccepted
  simp only [userCanAccessSkill_iff conv hparent, userCanAccessSkill_iff conv hdependency,
    henabled, true_and]
  generalize dependency.createdBy.getD "" = owner
  generalize parent.createdBy.getD "" = parentOwner
  by_cases hactive : parent.enabled
  · simp only [hactive, true_and, true_implies]
    exact covers_iff (normalizePermissionConfig_normal conv hparent) owner parentOwner
  · simp [hactive]

/-- An uploaded skill. -/
def uploadedSkill (config : PermissionConfig) (owner : String) : Skill Empty where
  id := 1
  name := "reporter"
  description := "Writes reports"
  sourceType := "upload"
  toolDependencies := []
  mcpDependencies := []
  skillDependencies := []
  dirPath := "shared/reporter"
  version := none
  contentHash := none
  shareConfig := config.dict
  enabled := true
  createdBy := some owner
  updatedBy := none
  updatedAt := 1

/-- A skill that can be read by one user. -/
def readBy (uid : String) : PermissionConfig where
  readScope := some (.user [uid])
  manageScope := none

/-- The owner of a parent cannot use a dependency that is shared with the same user. -/
theorem dependency_not_usable : ¬ ∀ (conv : Conversions Empty) (parent dependency : Skill Empty),
    canSkillDependOn conv parent dependency = .ok true →
      ∀ user, userCanAccessSkill conv user parent true = .ok true →
        userCanAccessSkill conv user dependency true = .ok true := by
  intro h
  have haccess := h sampleConversions (uploadedSkill (readBy "reader") "author")
    (uploadedSkill (readBy "reader") "other") (by decide +kernel) ⟨"author", "user", none⟩
    (by decide +kernel)
  exact absurd haccess (by decide +kernel)

/-- A dependency that everyone can read. -/
theorem dependency_usable_global :
    canSkillDependOn sampleConversions (uploadedSkill (readBy "reader") "author")
        (uploadedSkill builtinPermissionConfig "other") = .ok true ∧
      ∀ user, userCanAccessSkill sampleConversions user
          (uploadedSkill (readBy "reader") "author") true = .ok true →
        userCanAccessSkill sampleConversions user
          (uploadedSkill builtinPermissionConfig "other") true = .ok true := by
  have haccepted : canSkillDependOn sampleConversions (uploadedSkill (readBy "reader") "author")
      (uploadedSkill builtinPermissionConfig "other") = .ok true := by
    decide +kernel
  have hparent : normalizePermissionConfig sampleConversions (readBy "reader").dict =
      .ok (readBy "reader") := by
    decide +kernel
  have hdependency : normalizePermissionConfig sampleConversions builtinPermissionConfig.dict =
      .ok builtinPermissionConfig := by
    decide +kernel
  exact ⟨haccepted, (dependency_usable_iff sampleConversions _ _ hparent hdependency
    haccepted).mpr fun _ => by decide +kernel⟩

end Yuanlei.SkillService
