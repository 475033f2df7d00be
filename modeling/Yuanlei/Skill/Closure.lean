import Yuanlei.Lib.DepthFirst
import Yuanlei.Skill.Service

/-!
# The closure of the skills of a run

`expand_skill_closure` follows the dependencies of the selected skills, and
`SkillsMiddleware` opens the tools and MCP servers of those that are activated or preloaded.
Names of roots are read without the white space around them, and so are the dependencies that
`build_runtime_skills` stores; a map that holds other names is not closed under expansion.

Main results:

- `expandSkillClosure_visits`: the closure is a depth-first search.
- `skillClosure_reachable`: the closure is reachability, and what is preloaded or
  opened belongs to effective skills.
-/

namespace Yuanlei.SkillService

open DepthFirst

/-! ## Names -/

/-- A name that `normalize_string_list` keeps. -/
def NormalName (name : String) : Prop :=
  PyText.strip name = name ∧ name ≠ ""

variable {values : List String} {name : String}

theorem mem_normalizeStringList :
    name ∈ normalizeStringList values ↔
      (∃ value ∈ values, PyText.strip value = name) ∧ name ≠ "" := by
  have hfold : ∀ normalized : List String, name ∈ values.foldl
      (fun normalized value =>
        let item := PyText.strip value
        if item = "" ∨ item ∈ normalized then normalized else normalized ++ [item]) normalized ↔
        name ∈ normalized ∨ (∃ value ∈ values, PyText.strip value = name) ∧ name ≠ "" := by
    induction values with
    | nil => simp
    | cons value values ih =>
      intro normalized
      rw [List.foldl_cons, ih]
      simp only [List.mem_cons, exists_eq_or_imp]
      split_ifs with hskip
      · rcases hskip with hempty | hmem
        · grind
        · grind
      · simp only [List.mem_append, List.mem_singleton]
        grind
  simpa [normalizeStringList] using hfold []

theorem normalName_of_mem (h : name ∈ normalizeStringList values) : NormalName name := by
  obtain ⟨⟨value, -, rfl⟩, hne⟩ := mem_normalizeStringList.mp h
  exact ⟨PyText.strip_strip value, hne⟩

theorem mem_normalizeStringList_of_normal (h : ∀ value ∈ values, NormalName value) :
    name ∈ normalizeStringList values ↔ name ∈ values := by
  rw [mem_normalizeStringList]
  constructor
  · rintro ⟨⟨value, hvalue, rfl⟩, -⟩
    rwa [(h value hvalue).1]
  · intro hmem
    exact ⟨⟨name, hmem, (h name hmem).1⟩, (h name hmem).2⟩

/-! ## The closure -/

/-- The dependencies of a skill at run time. -/
structure RuntimeSkill where
  tools : List String
  mcps : List String
  skills : List String

def buildRuntimeSkills (items : List ResolvedSkill) : Table String RuntimeSkill :=
  items.foldl
    (fun result item =>
      if item.slug = "" then result
      else result.upsert item.slug
        { tools := normalizeStringList item.toolDependencies
          mcps := normalizeStringList item.mcpDependencies
          skills := normalizeStringList item.skillDependencies })
    Table.empty

variable (runtimeSkills : Table String RuntimeSkill)

/-- `dfs` of `expand_skill_closure`.  The set `seen` has the members of
`result`. -/
def dfs : Nat → List String → List String → String → List String
  | 0, _, result, _ => result
  | fuel + 1, stack, result, slug =>
    if slug ∈ stack then result
    else if slug ∈ result then result
    else
      match runtimeSkills.get slug with
      | none => result
      | some node => node.skills.foldl (dfs fuel (slug :: stack)) (result ++ [slug])

/-- `expand_skill_closure`; no path without repetition is longer than the map. -/
def expandSkillClosure (slugs : List String) : List String :=
  (normalizeStringList slugs).foldl (dfs runtimeSkills (runtimeSkills.rows.length + 1) []) []

/-- The dependencies of the skills that exist. -/
def dependencies (slug : String) : Option (List String) :=
  (runtimeSkills.get slug).map RuntimeSkill.skills

/-- The skills that are met so far. -/
structure Met (fuel : Nat) (stack result : List String) : Prop where
  nodup : result.Nodup
  known : result ⊆ runtimeSkills.keys
  onStack : stack ⊆ result
  fuel : runtimeSkills.keys.length < result.length + fuel

variable {runtimeSkills} {fuel : Nat} {stack result result' slugs : List String} {slug : String}

theorem mem_keys_of_dependencies (h : (dependencies runtimeSkills slug).isSome) :
    slug ∈ runtimeSkills.keys := by
  rw [dependencies, Option.isSome_map, Option.isSome_iff_ne_none, ne_eq,
    Table.get_eq_none_iff, not_not] at h
  exact h

theorem Met.visits (h : Met runtimeSkills fuel stack result)
    (hvisits : Visits (dependencies runtimeSkills) result slugs result') :
    Met runtimeSkills fuel stack result' where
  nodup := hvisits.nodup h.nodup
  known := by
    intro slug hslug
    rcases hvisits.reaches (fun _ => Reaches.root) slug hslug with hmet | hreached
    · exact h.known hmet
    · exact mem_keys_of_dependencies hreached.isSome
  onStack := List.Subset.trans h.onStack hvisits.prefix.subset
  fuel := by
    have hle := hvisits.prefix.length_le
    have hfuel := h.fuel
    omega

/-- One call visits its slug: the test of the stack finds nothing that is not met. -/
theorem dfs_visits (h : Met runtimeSkills fuel stack result) (slug : String) :
    Visits (dependencies runtimeSkills) result [slug]
      (dfs runtimeSkills fuel stack result slug) := by
  induction fuel generalizing stack result slug with
  | zero =>
    have hle := (List.subperm_of_subset h.nodup h.known).length_le
    have hfuel := h.fuel
    omega
  | succ fuel ih =>
    rw [dfs]
    split_ifs with hstack hseen
    · exact .skip (.inl (h.onStack hstack)) .done
    · exact .skip (.inl hseen) .done
    · cases hget : runtimeSkills.get slug with
      | none => exact .skip (.inr (by simp [dependencies, hget])) .done
      | some node =>
        have hnext : dependencies runtimeSkills slug = some node.skills := by
          simp [dependencies, hget]
        have hinner : Met runtimeSkills fuel (slug :: stack) (result ++ [slug]) := by
          constructor
          · exact h.nodup.append (List.nodup_singleton _) (by simpa using hseen)
          · exact List.append_subset.mpr ⟨h.known, List.cons_subset.mpr
              ⟨mem_keys_of_dependencies (by simp [hnext]), List.nil_subset _⟩⟩
          · exact List.cons_subset.mpr ⟨by simp,
              List.Subset.trans h.onStack (List.subset_append_left _ _)⟩
          · have hfuel := h.fuel
            rw [List.length_append, List.length_singleton]
            omega
        exact .visit hseen hnext (visits_foldl (fun _ slug hmet => ih hmet slug)
          (fun _ _ _ hmet hvisits => hmet.visits hvisits) _ hinner) .done

/-- The closure is a depth-first search from the roots, in the order in which they are given. -/
theorem expandSkillClosure_visits (runtimeSkills : Table String RuntimeSkill)
    (slugs : List String) :
    Visits (dependencies runtimeSkills) [] (normalizeStringList slugs)
      (expandSkillClosure runtimeSkills slugs) := by
  have hmet : Met runtimeSkills (runtimeSkills.rows.length + 1) [] [] := by
    constructor <;> simp [Table.keys]
  exact visits_foldl (fun _ slug hmet => dfs_visits hmet slug)
    (fun _ _ _ hmet hvisits => hmet.visits hvisits) _ hmet

theorem mem_expandSkillClosure : slug ∈ expandSkillClosure runtimeSkills slugs ↔
    Reaches (dependencies runtimeSkills) (normalizeStringList slugs) slug :=
  (expandSkillClosure_visits runtimeSkills slugs).mem_iff

theorem expandSkillClosure_subset {more : List String} (h : slugs ⊆ more) :
    expandSkillClosure runtimeSkills slugs ⊆ expandSkillClosure runtimeSkills more := by
  intro slug hslug
  rw [mem_expandSkillClosure] at hslug ⊢
  refine hslug.trans fun root hroot hsome => .root ?_ hsome
  obtain ⟨⟨value, hvalue, heq⟩, hne⟩ := mem_normalizeStringList.mp hroot
  exact mem_normalizeStringList.mpr ⟨⟨value, h hvalue, heq⟩, hne⟩

/-! ## Stored dependencies -/

/-- The dependencies are stored as `normalize_string_list` returns them. -/
def NormalSkills (runtimeSkills : Table String RuntimeSkill) : Prop :=
  ∀ slug node, runtimeSkills.get slug = some node → ∀ name ∈ node.skills, NormalName name

theorem normalSkills_buildRuntimeSkills (items : List ResolvedSkill) :
    NormalSkills (buildRuntimeSkills items) := by
  refine List.foldlRecOn items _ ?_ ?_
  · intro slug node hget
    simp at hget
  · intro result hresult item _ slug node hget
    split_ifs at hget
    · exact hresult slug node hget
    · rw [Table.get_upsert] at hget
      split_ifs at hget
      · cases hget
        exact fun name => normalName_of_mem
      · exact hresult slug node hget

theorem normalName_of_reaches (hnormal : NormalSkills runtimeSkills)
    (h : Reaches (dependencies runtimeSkills) (normalizeStringList slugs) slug) :
    NormalName slug := by
  cases h with
  | root hx hsome => exact normalName_of_mem hx
  | step hx hnext hy hsome =>
    obtain ⟨node, hget, rfl⟩ := Option.map_eq_some_iff.mp hnext
    exact hnormal _ node hget _ hy

theorem mem_expand_expand (hnormal : NormalSkills runtimeSkills) :
    slug ∈ expandSkillClosure runtimeSkills (expandSkillClosure runtimeSkills slugs) ↔
      slug ∈ expandSkillClosure runtimeSkills slugs := by
  have hkept : ∀ {name}, name ∈ normalizeStringList (expandSkillClosure runtimeSkills slugs) ↔
      name ∈ expandSkillClosure runtimeSkills slugs :=
    mem_normalizeStringList_of_normal fun name hname =>
      normalName_of_reaches hnormal (mem_expandSkillClosure.mp hname)
  constructor
  · intro h
    rw [mem_expandSkillClosure] at h ⊢
    exact h.trans fun root hroot _ => mem_expandSkillClosure.mp (hkept.mp hroot)
  · intro h
    exact mem_expandSkillClosure.mpr (.root (hkept.mpr h) (mem_expandSkillClosure.mp h).isSome)

/-! ## The skills of a run -/

/-- What `resolve_runtime_skills_for_context` leaves in the snapshot of a run. -/
structure SkillRuntimeSnapshot where
  contextSkills : List String
  contextPreloadSkills : List String
  effectiveSkills : List String
  runtimeSkills : Table String RuntimeSkill
  preloadedSkills : List String

/-- `resolve_runtime_skills_for_context` on the accessible skills and the selections of the
context. -/
def resolveRuntimeSkillsForContext (items : List ResolvedSkill) (skills preloads : List String) :
    SkillRuntimeSnapshot :=
  let runtimeSkills := buildRuntimeSkills items
  let contextSkills := (normalizeStringList skills).filter (· ∈ runtimeSkills.keys)
  let contextPreloadSkills := (normalizeStringList preloads).filter (· ∈ contextSkills)
  { contextSkills
    contextPreloadSkills
    effectiveSkills := expandSkillClosure runtimeSkills contextSkills
    runtimeSkills
    preloadedSkills := expandSkillClosure runtimeSkills contextPreloadSkills }

/-- One loop of `build_dependency_bundle`: the dependencies of one kind, each once. -/
def bundleNames (activatedSkills : List String) (runtimeSkills : Table String RuntimeSkill)
    (select : RuntimeSkill → List String) : List String :=
  (activatedSkills.flatMap fun slug => ((runtimeSkills.get slug).map select).getD []).foldl
    (fun names name => if name ∈ names then names else names ++ [name]) []

/-- `build_dependency_bundle`: tools and MCP servers. -/
def buildDependencyBundle (activatedSkills : List String)
    (runtimeSkills : Table String RuntimeSkill) : List String × List String :=
  (bundleNames activatedSkills runtimeSkills RuntimeSkill.tools,
    bundleNames activatedSkills runtimeSkills RuntimeSkill.mcps)

def activatedSkillsReducer (left right : List String) : List String :=
  normalizeStringList (left ++ right)

/-- The skills whose dependencies `SkillsMiddleware.awrap_model_call` opens, with those that
the state has activated. -/
def openedSkills (snapshot : SkillRuntimeSnapshot) (activated : List String) : List String :=
  let effective := normalizeStringList snapshot.effectiveSkills
  activatedSkillsReducer ((normalizeStringList snapshot.preloadedSkills).filter (· ∈ effective))
    ((normalizeStringList activated).filter (· ∈ effective))

theorem mem_bundleNames {activatedSkills : List String} {select : RuntimeSkill → List String}
    (h : name ∈ bundleNames activatedSkills runtimeSkills select) :
    ∃ slug ∈ activatedSkills, ∃ node, runtimeSkills.get slug = some node ∧ name ∈ select node := by
  have hmem : name ∈ activatedSkills.flatMap fun slug =>
      ((runtimeSkills.get slug).map select).getD [] := by
    revert h
    refine List.foldlRecOn (motive := fun names => name ∈ names → _) _ _ (by simp) ?_
    intro names hnames other hother h
    split_ifs at h
    · exact hnames h
    · rcases List.mem_append.mp h with hold | hnew
      · exact hnames hold
      · exact List.mem_singleton.mp hnew ▸ hother
  obtain ⟨slug, hslug, hname⟩ := List.mem_flatMap.mp hmem
  cases hget : runtimeSkills.get slug with
  | none => simp [hget] at hname
  | some node => exact ⟨slug, hslug, node, hget, by simpa [hget] using hname⟩

theorem mem_effectiveSkills_of_opened {items : List ResolvedSkill}
    {skills preloads activated : List String} {slug : String}
    (h : slug ∈ openedSkills (resolveRuntimeSkillsForContext items skills preloads) activated) :
    slug ∈ (resolveRuntimeSkillsForContext items skills preloads).effectiveSkills := by
  have hnormal : ∀ name ∈ (resolveRuntimeSkillsForContext items skills preloads).effectiveSkills,
      NormalName name := fun name hname =>
    normalName_of_reaches (normalSkills_buildRuntimeSkills items) (mem_expandSkillClosure.mp hname)
  obtain ⟨⟨value, hvalue, rfl⟩, -⟩ := mem_normalizeStringList.mp h
  have heffective : value ∈ normalizeStringList
      (resolveRuntimeSkillsForContext items skills preloads).effectiveSkills := by
    rcases List.mem_append.mp hvalue with hmem | hmem
    · exact of_decide_eq_true (List.mem_filter.mp hmem).2
    · exact of_decide_eq_true (List.mem_filter.mp hmem).2
  rw [(normalName_of_mem heffective).1]
  exact (mem_normalizeStringList_of_normal hnormal).mp heffective

/-- The closure meets the skills that can be reached from the roots as they are read, each once and
in depth-first order; larger roots give a larger closure, and a second expansion of a map with
normal names changes nothing.  In a run the preloaded skills are effective, and so are the skills
whose tools and MCP servers are opened. -/
theorem skillClosure_reachable (runtimeSkills : Table String RuntimeSkill) (slugs : List String) :
    (expandSkillClosure runtimeSkills slugs).Nodup ∧
      Visits (dependencies runtimeSkills) [] (normalizeStringList slugs)
        (expandSkillClosure runtimeSkills slugs) ∧
      (∀ slug, slug ∈ expandSkillClosure runtimeSkills slugs ↔
        Reaches (dependencies runtimeSkills) (normalizeStringList slugs) slug) ∧
      (NormalSkills runtimeSkills → ∀ slug,
        slug ∈ expandSkillClosure runtimeSkills (expandSkillClosure runtimeSkills slugs) ↔
          slug ∈ expandSkillClosure runtimeSkills slugs) ∧
      (∀ more, slugs ⊆ more →
        expandSkillClosure runtimeSkills slugs ⊆ expandSkillClosure runtimeSkills more) ∧
      ∀ (items : List ResolvedSkill) (skills preloads activated : List String),
        let snapshot := resolveRuntimeSkillsForContext items skills preloads
        let bundle := buildDependencyBundle (openedSkills snapshot activated) snapshot.runtimeSkills
        NormalSkills snapshot.runtimeSkills ∧
          snapshot.preloadedSkills ⊆ snapshot.effectiveSkills ∧
          (∀ tool ∈ bundle.1, ∃ slug ∈ snapshot.effectiveSkills, ∃ node,
            snapshot.runtimeSkills.get slug = some node ∧ tool ∈ node.tools) ∧
          ∀ mcp ∈ bundle.2, ∃ slug ∈ snapshot.effectiveSkills, ∃ node,
            snapshot.runtimeSkills.get slug = some node ∧ mcp ∈ node.mcps := by
  refine ⟨(expandSkillClosure_visits runtimeSkills slugs).nodup List.nodup_nil,
    expandSkillClosure_visits runtimeSkills slugs, fun slug => mem_expandSkillClosure,
    fun hnormal slug => mem_expand_expand hnormal, fun more => expandSkillClosure_subset, ?_⟩
  intro items skills preloads activated
  have hbundle : ∀ {select : RuntimeSkill → List String} {name : String}, name ∈ bundleNames
      (openedSkills (resolveRuntimeSkillsForContext items skills preloads) activated)
      (resolveRuntimeSkillsForContext items skills preloads).runtimeSkills select →
      ∃ slug ∈ (resolveRuntimeSkillsForContext items skills preloads).effectiveSkills, ∃ node,
        (resolveRuntimeSkillsForContext items skills preloads).runtimeSkills.get slug = some node ∧
          name ∈ select node := by
    intro select name hname
    obtain ⟨slug, hslug, hnode⟩ := mem_bundleNames hname
    exact ⟨slug, mem_effectiveSkills_of_opened hslug, hnode⟩
  exact ⟨normalSkills_buildRuntimeSkills items, expandSkillClosure_subset fun slug hslug =>
    of_decide_eq_true (List.mem_filter.mp hslug).2, fun _ => hbundle, fun _ => hbundle⟩

/-- A skill that depends on one whose slug begins with a blank. -/
def blankSkills : Table String RuntimeSkill where
  rows :=
    [("report", ⟨[], [], [" charts"]⟩), (" charts", ⟨[], [], []⟩), ("charts", ⟨[], [], []⟩)]
  nodupKeys := by decide

/-- The second expansion reads the slug without its blank. -/
theorem expand_blank : ¬ ∀ (runtimeSkills : Table String RuntimeSkill) (slugs : List String),
    ∀ slug, slug ∈ expandSkillClosure runtimeSkills (expandSkillClosure runtimeSkills slugs) ↔
      slug ∈ expandSkillClosure runtimeSkills slugs := by
  intro h
  exact absurd (h blankSkills ["report"] "charts") (by decide +kernel)

end Yuanlei.SkillService
