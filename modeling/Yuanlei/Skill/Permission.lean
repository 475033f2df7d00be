import Mathlib.Data.Finset.Sort
import Mathlib.Data.String.Basic
import Yuanlei.Lib.Json
import Yuanlei.Lib.PyText

/-!
# Resource permissions

Share configurations are stored as JSON.  They are normalised before every use: the
version is checked, the members of a scope become sorted lists without repetition, and a
scope without members is refused.  Python's `int` and `str` on arbitrary JSON values and
two questions about floating-point numbers are parameters.

Main results:

- `normalizePermissionConfig_dict`: what a normalisation returned is accepted again
  and returned unchanged.
- `normalizePermissionConfig_normal`: normalisation produces normal configurations.
-/

namespace Yuanlei.Permission

/-! ## Python values -/

/-- The exceptions of the normalisation. -/
inductive ConfigError where
  | valueError (message : String)
  | typeError
deriving DecidableEq

/-- Python's conversions of JSON values, as far as the code relies on them. -/
structure Conversions (F : Type) where
  /-- The truth value of a float. -/
  truthy : F → Bool
  /-- Comparison of a float with the number two. -/
  eqTwo : F → Bool
  /-- The constructor `int`. -/
  int : Json F → Except ConfigError Int
  /-- The constructor `str`. -/
  str : Json F → String
  int_int : ∀ i, int (.int i) = .ok i
  str_str : ∀ s, str (.str s) = s

variable {F : Type} (conv : Conversions F)

/-- The truth value of a JSON value. -/
def truthy : Json F → Bool
  | .null => false
  | .bool b => b
  | .int i => i != 0
  | .float x => conv.truthy x
  | .str s => s != ""
  | .arr items => !items.isEmpty
  | .obj fields => !fields.isEmpty

/-- The method `dict.get`. -/
def get (fields : List (String × Json F)) (key : String) : Json F :=
  (fields.lookup key).getD .null

/-- The values that a `for` loop visits. -/
def iterate : Json F → Except ConfigError (List (Json F))
  | .arr items => .ok items
  | .str s => .ok (s.toList.map fun c => .str (String.ofList [c]))
  | .obj fields => .ok (fields.map fun field => .str field.1)
  | _ => .error .typeError

/-- The loop over `value or []`. -/
def iterateOrEmpty (value : Json F) : Except ConfigError (List (Json F)) :=
  if truthy conv value then iterate value else .ok []

/-- Sorting a set. -/
def sortedSet {α : Type} [LinearOrder α] (items : List α) : List α :=
  items.toFinset.sort

variable {α : Type}

@[simp]
theorem mem_sortedSet [LinearOrder α] {items : List α} {x : α} :
    x ∈ sortedSet items ↔ x ∈ items := by
  simp [sortedSet]

@[simp]
theorem sortedSet_sortedSet [LinearOrder α] (items : List α) :
    sortedSet (sortedSet items) = sortedSet items := by
  simp [sortedSet]

/-! ## Scopes -/

/-- The levels of a scope. -/
inductive AccessLevel where
  | global
  | department
  | user
deriving DecidableEq

/-- The text of a level. -/
def AccessLevel.text : AccessLevel → String
  | .global => "global"
  | .department => "department"
  | .user => "user"

/-- A normalised scope. -/
inductive Scope where
  | global
  | department (departmentIds : List Int)
  | user (userUids : List String)
deriving DecidableEq

namespace Scope

def accessLevel : Scope → AccessLevel
  | global => .global
  | department _ => .department
  | user _ => .user

def departmentIds : Scope → List Int
  | department departmentIds => departmentIds
  | _ => []

def userUids : Scope → List String
  | user userUids => userUids
  | _ => []

/-- The dictionary of a scope. -/
def dict (scope : Scope) : Json F :=
  .obj [("access_level", .str scope.accessLevel.text),
      ("department_ids", .arr (scope.departmentIds.map .int)),
      ("user_uids", .arr (scope.userUids.map .str))]

/-- The members of a normalised scope are sorted and there is at least one. -/
def Normal : Scope → Prop
  | global => True
  | department departmentIds => sortedSet departmentIds = departmentIds ∧ departmentIds ≠ []
  | user userUids =>
    sortedSet userUids = userUids ∧ userUids ≠ [] ∧
      ∀ uid ∈ userUids, PyText.strip uid = uid ∧ uid ≠ ""

end Scope

/-- The checks on the members of a department scope. -/
def departmentScope (items : List (Json F)) : Except ConfigError Scope := do
  let ids ← items.mapM conv.int
  let departmentIds := sortedSet ids
  if departmentIds = [] then .error (.valueError "部门权限至少需要选择一个部门")
  else .ok (.department departmentIds)

/-- The checks on the members of a user scope. -/
def userScope (items : List (Json F)) : Except ConfigError Scope :=
  let userUids := sortedSet
    ((items.map fun value => PyText.strip (conv.str value)).filter fun uid => uid ≠ "")
  if userUids = [] then .error (.valueError "指定用户权限至少需要选择一个用户")
  else .ok (.user userUids)

/-- Normalise one scope. -/
def normalizeScope : Json F → Except ConfigError (Option Scope)
  | .null => .ok none
  | .obj fields =>
    let accessLevel :=
      if truthy conv (get fields "access_level") then get fields "access_level"
      else .str "global"
    match accessLevel with
    | .str level =>
      if level = "global" then .ok (some .global)
      else if level = "department" then do
        let items ← iterateOrEmpty conv (get fields "department_ids")
        some <$> departmentScope conv items
      else if level = "user" then do
        let items ← iterateOrEmpty conv (get fields "user_uids")
        some <$> userScope conv items
      else .error (.valueError "无效的资源权限范围")
    -- a list or a dictionary cannot be looked up in a set
    | .arr _ => .error .typeError
    | .obj _ => .error .typeError
    | _ => .error (.valueError "无效的资源权限范围")
  | _ => .error (.valueError "权限范围必须是对象")

variable {scope : Scope} {items : List (Json F)}

theorem departmentScope_normal (h : departmentScope conv items = .ok scope) : scope.Normal := by
  unfold departmentScope at h
  cases hids : items.mapM conv.int with
  | error e => simp [hids, bind, Except.bind] at h
  | ok ids =>
    simp only [hids, bind, Except.bind] at h
    split at h
    · cases h
    · next hne =>
        cases h
        exact ⟨sortedSet_sortedSet ids, hne⟩

theorem userScope_normal (h : userScope conv items = .ok scope) : scope.Normal := by
  unfold userScope at h
  simp only at h
  split at h
  · cases h
  · next hne =>
      cases h
      refine ⟨sortedSet_sortedSet _, hne, ?_⟩
      intro uid huid
      simp only [mem_sortedSet, List.mem_filter, List.mem_map, decide_eq_true_eq] at huid
      obtain ⟨⟨value, -, hvalue⟩, huid⟩ := huid
      refine ⟨?_, huid⟩
      rw [← hvalue, PyText.strip_strip]

theorem normalizeScope_normal {value : Json F} (h : normalizeScope conv value = .ok (some scope)) : scope.Normal := by
  cases value with
  | null => simp [normalizeScope] at h
  | bool b => simp [normalizeScope] at h
  | int i => simp [normalizeScope] at h
  | float x => simp [normalizeScope] at h
  | str s => simp [normalizeScope] at h
  | arr items => simp [normalizeScope] at h
  | obj fields =>
    simp only [normalizeScope] at h
    generalize (if truthy conv (get fields "access_level") then get fields "access_level"
      else .str "global") = level at h
    split at h
    · split at h
      · cases h
        trivial
      · split at h
        · cases hitems : iterateOrEmpty conv (get fields "department_ids") with
          | error e => simp [hitems, bind, Except.bind] at h
          | ok items =>
            cases hscope : departmentScope conv items with
            | error e => simp [hitems, hscope, bind, Except.bind, Functor.map, Except.map] at h
            | ok scope' =>
              simp only [hitems, hscope, bind, Except.bind, Functor.map, Except.map,
                Except.ok.injEq, Option.some.injEq] at h
              subst h
              exact departmentScope_normal conv hscope
        · split at h
          · cases hitems : iterateOrEmpty conv (get fields "user_uids") with
            | error e => simp [hitems, bind, Except.bind] at h
            | ok items =>
              cases hscope : userScope conv items with
              | error e =>
                simp [hitems, hscope, bind, Except.bind, Functor.map, Except.map] at h
              | ok scope' =>
                simp only [hitems, hscope, bind, Except.bind, Functor.map, Except.map,
                  Except.ok.injEq, Option.some.injEq] at h
                subst h
                exact userScope_normal conv hscope
          · cases h
    all_goals cases h

/-- The members of a list of numbers are read back. -/
theorem mapM_int (ids : List Int) : (ids.map (Json.int (F := F))).mapM conv.int = .ok ids := by
  induction ids with
  | nil => rfl
  | cons i ids ih => simp [List.mapM_cons, conv.int_int, ih, bind, Except.bind, pure, Except.pure]

@[simp]
theorem iterateOrEmpty_arr (items : List (Json F)) :
    iterateOrEmpty conv (.arr items) = .ok items := by
  cases items <;> simp [iterateOrEmpty, truthy, iterate]

theorem normalizeScope_dict (h : scope.Normal) :
    normalizeScope conv scope.dict = .ok (some scope) := by
  cases scope with
  | global => simp [normalizeScope, Scope.dict, get, truthy, Scope.accessLevel, AccessLevel.text]
  | department ids =>
    have hscope : departmentScope conv (ids.map Json.int) = .ok (.department ids) := by
      rw [departmentScope, mapM_int]
      simp [bind, Except.bind, h.1, h.2]
    simp [normalizeScope, Scope.dict, get, truthy, Scope.accessLevel, AccessLevel.text,
      List.lookup_cons, Scope.departmentIds, bind, Except.bind, hscope, Functor.map, Except.map]
  | user uids =>
    obtain ⟨hsorted, hne, hmembers⟩ := h
    have hstrip : ((uids.map Json.str).map fun value : Json F => PyText.strip (conv.str value))
        = uids := by
      rw [List.map_map]
      conv_rhs => rw [← List.map_id uids]
      refine List.map_congr_left fun uid hmem => ?_
      simpa [conv.str_str] using (hmembers uid hmem).1
    have hfilter : uids.filter (fun uid => uid ≠ "") = uids := by
      refine List.filter_eq_self.mpr fun uid hmem => ?_
      simpa using (hmembers uid hmem).2
    have hscope : userScope conv (uids.map Json.str) = .ok (.user uids) := by
      simp only [userScope, hstrip, hfilter, hsorted, hne, if_false]
    simp [normalizeScope, Scope.dict, get, truthy, Scope.accessLevel, AccessLevel.text,
      List.lookup_cons, Scope.userUids, bind, Except.bind, hscope, Functor.map, Except.map]

/-! ## Configurations -/

/-- A normalised configuration of version 2. -/
structure PermissionConfig where
  readScope : Option Scope
  manageScope : Option Scope
deriving DecidableEq

namespace PermissionConfig

/-- The dictionary of a configuration. -/
def dict (config : PermissionConfig) : Json F :=
  .obj [("version", .int 2), ("read_scope", (config.readScope.map Scope.dict).getD .null),
      ("manage_scope", (config.manageScope.map Scope.dict).getD .null)]

/-- Both scopes are normal. -/
def Normal (config : PermissionConfig) : Prop :=
  (∀ scope, config.readScope = some scope → scope.Normal) ∧
    ∀ scope, config.manageScope = some scope → scope.Normal

/-- The scopes of a configuration that are set. -/
def scopes (config : PermissionConfig) : List Scope :=
  config.readScope.toList ++ config.manageScope.toList

end PermissionConfig

/-- The comparison `value == 2`. -/
def isTwo : Json F → Bool
  | .int i => i == 2
  | .float x => conv.eqTwo x
  | _ => false

/-- The refusal of a management scope that exceeds the read scope. -/
def manageScopeError : ConfigError :=
  .valueError "管理范围必须包含在读取范围内"

/-- A management scope lies in the read scope. -/
def validateManageScope : Option Scope → Option Scope → Except ConfigError Unit
  | none, _ => .ok ()
  | _, none => .ok ()
  | some .global, _ => .ok ()
  | some (.department readIds), some (.department manageIds) =>
    if ∀ i ∈ manageIds, i ∈ readIds then .ok () else .error manageScopeError
  | some (.user readUids), some (.user manageUids) =>
    if ∀ uid ∈ manageUids, uid ∈ readUids then .ok () else .error manageScopeError
  | _, _ => .error manageScopeError

/-- What a writer adds to the normalisation: the levels open to the operator with the
refusal of the others, and the strict comparison of the two scopes. -/
structure WriteChecks where
  allowedAccessLevels : Option (List AccessLevel) := none
  unauthorizedAccessLevelMessage : String := "当前用户无权使用该资源共享范围"
  strict : Bool := false

/-- The last check of the normalisation. -/
def checkAccessLevels (checks : WriteChecks) (config : PermissionConfig) :
    Except ConfigError PermissionConfig :=
  match checks.allowedAccessLevels with
  | none => .ok config
  | some allowed =>
    if ∀ scope ∈ config.scopes, scope.accessLevel ∈ allowed then .ok config
    else .error (.valueError checks.unauthorizedAccessLevelMessage)

/-- The comparison of the two scopes counts for strict writers only. -/
def checkManageScope (checks : WriteChecks) (config : PermissionConfig) : Except ConfigError Unit :=
  if checks.strict then validateManageScope config.readScope config.manageScope else .ok ()

/-- The fields of a share configuration; another value counts as an empty dictionary. -/
def configFields : Json F → List (String × Json F)
  | .obj fields => fields
  | _ => []

/-- Normalise and check a configuration of version 2. -/
def normalizePermissionConfig (shareConfig : Json F) (checks : WriteChecks := { }) :
    Except ConfigError PermissionConfig :=
  let fields := configFields shareConfig
  if isTwo conv (get fields "version") then do
    let readScope ← normalizeScope conv (get fields "read_scope")
    let manageScope ← normalizeScope conv (get fields "manage_scope")
    checkManageScope checks { readScope, manageScope }
    checkAccessLevels checks { readScope, manageScope }
  else .error (.valueError "资源共享配置必须使用 version 2")

variable {shareConfig : Json F} {config : PermissionConfig} {checks : WriteChecks}

/-- What an accepted configuration went through. -/
theorem normalizePermissionConfig_eq_ok
    (h : normalizePermissionConfig conv shareConfig checks = .ok config) :
    isTwo conv (get (configFields shareConfig) "version") ∧
      normalizeScope conv (get (configFields shareConfig) "read_scope") = .ok config.readScope ∧
      normalizeScope conv (get (configFields shareConfig) "manage_scope")
        = .ok config.manageScope := by
  unfold normalizePermissionConfig at h
  simp only at h
  split at h
  · next hversion =>
      cases hread : normalizeScope conv (get (configFields shareConfig) "read_scope") with
      | error e => simp [hread, bind, Except.bind] at h
      | ok readScope =>
        cases hmanage : normalizeScope conv (get (configFields shareConfig) "manage_scope") with
        | error e => simp [hread, hmanage, bind, Except.bind] at h
        | ok manageScope =>
          simp only [hread, hmanage, bind, Except.bind] at h
          split at h
          · cases h
          · unfold checkAccessLevels at h
            split at h
            · cases h
              exact ⟨hversion, rfl, rfl⟩
            · split at h
              · cases h
                exact ⟨hversion, rfl, rfl⟩
              · cases h
  · cases h

theorem normalizePermissionConfig_normal
    (h : normalizePermissionConfig conv shareConfig checks = .ok config) : config.Normal := by
  obtain ⟨-, hread, hmanage⟩ := normalizePermissionConfig_eq_ok conv h
  constructor
  · intro scope hscope
    rw [hscope] at hread
    exact normalizeScope_normal conv hread
  · intro scope hscope
    rw [hscope] at hmanage
    exact normalizeScope_normal conv hmanage

theorem normalizeScope_option {scope : Option Scope} (h : ∀ s, scope = some s → s.Normal) :
    normalizeScope conv ((scope.map Scope.dict).getD .null) = .ok scope := by
  cases scope with
  | none => rfl
  | some s => exact normalizeScope_dict conv (h s rfl)

/-- A normal configuration is accepted and returned unchanged. -/
theorem normalizePermissionConfig_dict (h : config.Normal) :
    normalizePermissionConfig conv config.dict = .ok config := by
  have hread := normalizeScope_option conv h.1
  have hmanage := normalizeScope_option conv h.2
  simp [normalizePermissionConfig, PermissionConfig.dict, configFields, get, isTwo,
    List.lookup_cons, hread, hmanage, bind, Except.bind, checkManageScope, checkAccessLevels]

/-! ## Permissions of a user -/

/-- The levels of permission. -/
inductive ResourcePermission where
  | none
  | read
  | manage
deriving DecidableEq

/-- The rank of a permission. -/
def ResourcePermission.order : ResourcePermission → Nat
  | .none => 0
  | .read => 1
  | .manage => 2

/-- The fields of a user that the permissions depend on. -/
structure User where
  uid : String
  role : String
  departmentId : Option Int
deriving DecidableEq

/-- The user lies in a scope. -/
def scopeMatches (user : User) : Option Scope → Bool
  | none => false
  | some .global => true
  | some (.department departmentIds) =>
    match user.departmentId with
    | none => false
    | some departmentId => departmentIds.contains departmentId
  | some (.user userUids) => userUids.contains user.uid

/-- The lower of two permissions. -/
def minimumPermission (left right : ResourcePermission) : ResourcePermission :=
  if left.order ≤ right.order then left else right

/-- The role ceilings of agents and skills. -/
def skillPermissionPolicy : List (String × ResourcePermission) :=
  [("user", .manage), ("admin", .manage), ("superadmin", .manage)]

/-- What the configuration grants to a user who is not the owner. -/
def grantedPermission (user : User) (config : PermissionConfig) : ResourcePermission :=
  if scopeMatches user config.manageScope ∧
      (config.readScope = none ∨ scopeMatches user config.readScope) then .manage
  else if scopeMatches user config.readScope then .read
  else .none

/-- The permission of a user on a resource. -/
def resolveResourcePermission (user : User) (createdBy : Option String) (shareConfig : Json F)
    (policy : List (String × ResourcePermission)) : Except ConfigError ResourcePermission :=
  if user.role = "superadmin" then .ok .manage
  else do
    let config ← normalizePermissionConfig conv shareConfig
    if createdBy.getD "" = user.uid then .ok .manage
    else .ok (minimumPermission (grantedPermission user config)
      ((policy.lookup user.role).getD .read))

theorem resolveResourcePermission_isOk (h : normalizePermissionConfig conv shareConfig = .ok config)
    (user : User)
    (createdBy : Option String) (policy : List (String × ResourcePermission)) :
    ∃ permission,
      resolveResourcePermission conv user createdBy shareConfig policy = .ok permission := by
  unfold resolveResourcePermission
  by_cases hrole : user.role = "superadmin"
  · simp [hrole]
  · by_cases howner : createdBy.getD "" = user.uid
    · simp [hrole, h, howner, bind, Except.bind]
    · simp [hrole, h, howner, bind, Except.bind]

theorem minimumPermission_ceiling (granted : ResourcePermission) (role : String) :
    minimumPermission granted ((skillPermissionPolicy.lookup role).getD .read) ≠ .none ↔
      granted ≠ .none := by
  have hceiling : (skillPermissionPolicy.lookup role).getD .read = .manage ∨
      (skillPermissionPolicy.lookup role).getD .read = .read := by
    simp only [skillPermissionPolicy, List.lookup_cons, List.lookup_nil]
    split
    · simp
    · split
      · simp
      · split <;> simp
  rcases hceiling with hceiling | hceiling <;> rw [hceiling] <;> cases granted <;> decide

theorem resolveResourcePermission_global
    (h : normalizePermissionConfig conv shareConfig = .ok config)
    (hglobal : config.readScope = some .global) (user : User) (createdBy : Option String) :
    ∃ permission, permission ≠ .none ∧
      resolveResourcePermission conv user createdBy shareConfig skillPermissionPolicy
        = .ok permission := by
  unfold resolveResourcePermission
  by_cases hrole : user.role = "superadmin"
  · exact ⟨.manage, by simp, by simp [hrole]⟩
  · by_cases howner : createdBy.getD "" = user.uid
    · exact ⟨.manage, by simp, by simp [hrole, h, howner, bind, Except.bind]⟩
    · refine ⟨_, ?_, by simp [hrole, h, howner, bind, Except.bind]; rfl⟩
      have hgranted : grantedPermission user config ≠ .none := by
        have hread : scopeMatches user config.readScope = true := by
          rw [hglobal]
          rfl
        rw [grantedPermission, if_pos hread]
        split <;> simp
      exact (minimumPermission_ceiling _ _).mpr hgranted

end Yuanlei.Permission
