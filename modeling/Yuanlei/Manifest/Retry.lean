import Yuanlei.Lib.Transition
import Yuanlei.Manifest.Preparation

/-!
# Retries and the recorded manifest

A run is executed again only if the manifest of the new attempt has the recorded fingerprint.  The
manifest depends on files that the run itself may write and on the worktrees that it may allocate:
the two prompt files of the workspace, the personal skills, and the repositories of the task.

Main results:

- `appendPrompt_inj`: the prompt of the workspace can be told from the system prompt.
- `retry_matches_iff`: a retry passes if and only if the work of the run has left
  prompt, skills and repositories alone, and attempts with one fingerprint have the same
  configuration and the same preloaded skills.
-/

namespace Yuanlei.RunManifest

open Permission (Conversions ConfigError)
open SkillService (ResolvedSkill SkillTable listAccessibleSkills normalizeStringList)
open ProjectGit (GitTables Naming AllocationRequest FetchedState WorktreeKey)

variable {F : Type} (p : Platform F)

/-! ## The work of a run -/

/-- A step of an execution: the file tools, the memory tool and the Git tools. -/
inductive RunStep where
  | writeFile (path : String) (entry : FileEntry)
  | rememberMemory (entry : FileEntry)
  | requestWorktree (repositoryId : String) (request : AllocationRequest)
  | leaseWorktree (repositoryId owner : String) (directory : Option String) (now expiresAt : Time)
  | finishWorktree (repositoryId owner : String) (fetched : FetchedState)
  | pushBranch (repositoryId sha : String)

/-- The new tables of a transaction that returns. -/
def committedGit {ε α : Type} (git : GitTables) : Except ε (α × GitTables) → GitTables
  | .ok result => result.2
  | .error _ => git

def writeFile (w : World) (path : String) (entry : FileEntry) : World :=
  { w with files := fun other => if other = path then entry else w.files other }

/-- One step of the run in its own scope. -/
def worldStep (naming : Naming) (c : RunConfiguration F) (w : World) : RunStep → World
  | .writeFile path entry => writeFile w path entry
  | .rememberMemory entry => writeFile w "/agents/MEMORY.md" entry
  | .requestWorktree repositoryId request =>
    match w.git.repositories.get repositoryId with
    | none => w
    | some repository =>
      { w with
        git := committedGit w.git
          (ProjectGit.requestWorktreeAllocation naming w.git repositoryId repository
            { request with
              uid := c.user.uid
              runtimeScopeId := c.runtimeScopeId
              selectionSource := .agent }) }
  | .leaseWorktree repositoryId owner directory now expiresAt =>
    { w with
      git := committedGit w.git
        (ProjectGit.leaseWorktree naming w.git repositoryId c.user.uid c.runtimeScopeId owner
          directory now expiresAt) }
  | .finishWorktree repositoryId owner fetched =>
    { w with
      git := committedGit w.git
        (ProjectGit.finishWorktree w.git repositoryId c.user.uid c.runtimeScopeId owner fetched) }
  | .pushBranch repositoryId sha =>
    { w with
      git :=
        { w.git with
          worktrees := w.git.worktrees.modify
            { repositoryId := repositoryId, runtimeScopeId := c.runtimeScopeId }
            fun worktree => { worktree with lastPushedSha := some sha } } }

/-! ## What an attempt reads -/

/-- The skills of an attempt: the selected and the preloaded ones, and their entries. -/
structure SkillSelection where
  contextSkills : List String
  contextPreloadSkills : List String
  entries : List SkillEntry
deriving DecidableEq

/-- The skills that an attempt resolves in a workspace. -/
def skillSelection (c : RunConfiguration F) (files : Files) :
    Except PrepareError SkillSelection := do
  let accessible ← (listAccessibleSkills p.conv c.skillTable c.user true
    (p.scanPersonalSkills files)).mapError PrepareError.config
  let items := accessible.filter fun item => item.slug ≠ ""
  let skills := resolveResource false (requestedContext p c "skills") (items.map ResolvedSkill.slug)
  let preloads := normalizeSelectedResourceKeys (requestedContext p c "preload_skills") skills
  let scope ← resolveRuntimeSkills p files items skills preloads
  let entries ← buildSkillManifestEntries scope.contextSkills scope
  .ok
    { contextSkills := scope.contextSkills
      contextPreloadSkills := scope.contextPreloadSkills
      entries }

/-- The context of an attempt, from the prompt of the workspace and the skills. -/
def attemptContext (c : RunConfiguration F) (workspacePrompt : String)
    (selection : SkillSelection) : Context F :=
  let context := (requestedContext p c).set "system_prompt"
    (appendPrompt p (requestedContext p c "system_prompt") workspacePrompt)
  let context := normalizeResources c (withDefaultModel p c context) []
  let context := context.set "skills" (strings selection.contextSkills)
  context.set "preload_skills" (strings selection.contextPreloadSkills)

/-- An attempt, from what it reads. -/
def attempt (c : RunConfiguration F) (workspacePrompt : String) (selection : SkillSelection)
    (repositories : List GitIdentity) : PreparedRunExecution F where
  manifest := buildManifestPayload p c (attemptContext p c workspacePrompt selection)
    selection.entries repositories
  context := attemptContext p c workspacePrompt selection
  skillEntries := selection.entries

variable (keys : List String)

@[simp]
theorem resourceKeys_strings : resourceKeys (strings keys : Json F) = keys := by
  simp [resourceKeys, strings, stringItems, List.filterMap_map]

variable {p} {name : String}

theorem withDefaultModel_of_ne (c : RunConfiguration F) (context : Context F) (h : name ≠ "model") : withDefaultModel p c context name = context name := by
  simp only [withDefaultModel]
  split_ifs <;> simp [Context.set, h]

theorem normalizeResources_skills (c : RunConfiguration F) (context : Context F)
    (slugs : List String) : normalizeResources c context slugs "skills" =
      strings (resolveResource false (context "skills") slugs) := by
  simp [normalizeResources, Context.set]

theorem normalizeResources_preloads (c : RunConfiguration F) (context : Context F)
    (slugs : List String) : normalizeResources c context slugs "preload_skills" =
      strings (normalizeSelectedResourceKeys (context "preload_skills")
        (resolveResource false (context "skills") slugs)) := by
  unfold normalizeResources
  split <;> simp [Context.set]

theorem normalizeResources_of_ne (c : RunConfiguration F) (context : Context F)
    (slugs : List String) (hskills : name ≠ "skills") (hpreloads : name ≠ "preload_skills") :
    normalizeResources c context slugs name = normalizeResources c context [] name := by
  simp only [normalizeResources, Context.set, hskills, hpreloads, if_false]

theorem normalizeResources_prompt (c : RunConfiguration F) (context : Context F)
    (slugs : List String) :
    normalizeResources c context slugs "system_prompt" = context "system_prompt" := by
  unfold normalizeResources
  split <;> simp [Context.set]

theorem appendWorkspaceAgentPrompt_of_ne (context : Context F) (files : Files)
    (h : name ≠ "system_prompt") : appendWorkspaceAgentPrompt p context files name = context name := by
  simp [appendWorkspaceAgentPrompt, Context.set, h]

/-- The skill fields are overwritten in the end. -/
theorem attemptContext_eq (c : RunConfiguration F) (files : Files) (slugs : List String)
    (selection : SkillSelection) :
    ((normalizeResources c (withDefaultModel p c
        (appendWorkspaceAgentPrompt p (requestedContext p c) files)) slugs).set "skills"
        (strings selection.contextSkills)).set "preload_skills"
        (strings selection.contextPreloadSkills) =
      attemptContext p c (loadWorkspaceAgentContext p files) selection := by
  funext name
  unfold attemptContext
  simp only [Context.set]
  by_cases hpreloads : name = "preload_skills"
  · simp [hpreloads]
  · by_cases hskills : name = "skills"
    · simp [hskills]
    · simp only [hpreloads, hskills, if_false]
      exact normalizeResources_of_ne c _ slugs hskills hpreloads

theorem prepareRunExecution_eq (c : RunConfiguration F) (w : World) :
    prepareRunExecution p c w =
      if c.runType = "subagent" ∧ PyText.strip c.parentThreadId = "" then
        .error (.value "子智能体运行缺少必需的 parent_thread_id")
      else
        (skillSelection p c w.files).map fun selection =>
          attempt p c (loadWorkspaceAgentContext p w.files) selection (gitRepositories c w.git) := by
  unfold prepareRunExecution
  split
  · rfl
  · simp only [prepareAgentRuntimeContext, skillSelection, bind, Except.bind]
    cases (listAccessibleSkills p.conv c.skillTable c.user true
      (p.scanPersonalSkills w.files)).mapError PrepareError.config with
    | error e => rfl
    | ok accessible =>
      simp only [normalizeResources_skills, normalizeResources_preloads, resourceKeys_strings,
        withDefaultModel_of_ne c _ (show "skills" ≠ "model" by decide),
        withDefaultModel_of_ne c _ (show "preload_skills" ≠ "model" by decide),
        appendWorkspaceAgentPrompt_of_ne _ _ (show "skills" ≠ "system_prompt" by decide),
        appendWorkspaceAgentPrompt_of_ne _ _ (show "preload_skills" ≠ "system_prompt" by decide)]
      generalize resolveRuntimeSkills p w.files (accessible.filter fun item => item.slug ≠ "") _ _
        = scope
      cases scope with
      | error e => rfl
      | ok scope =>
        simp only
        cases hentries : buildSkillManifestEntries scope.contextSkills scope with
        | error e => rfl
        | ok entries =>
          simp only [Except.map, Except.ok.injEq, attempt, PreparedRunExecution.mk.injEq,
            and_true]
          have hcontext := attemptContext_eq (p := p) c w.files
            ((accessible.filter fun item => item.slug ≠ "").map ResolvedSkill.slug)
            { contextSkills := scope.contextSkills
              contextPreloadSkills := scope.contextPreloadSkills
              entries }
          simp only at hcontext
          rw [hcontext]
          exact ⟨rfl, rfl⟩

/-! ## The prompt of the workspace -/

/-- A text that is empty or starts with a visible character. -/
def Unindented (s : String) : Prop :=
  s = "" ∨ ∃ first rest, s.toList = first :: rest ∧ PyText.isSpace first = false

theorem workspaceSection_start {files : Files} {filename text : String}
    (h : workspaceSection p files filename = some text) :
    ∃ rest, text.toList = '用' :: rest := by
  unfold workspaceSection at h
  split at h
  · simp only at h
    split at h
    · cases h
    · cases h
      exact ⟨_, by simp only [String.toList_append]; rfl⟩
  · cases h

theorem unindented_loadWorkspaceAgentContext (files : Files) :
    Unindented (loadWorkspaceAgentContext p files) := by
  have hfirst : PyText.isSpace '用' = false := by decide
  unfold loadWorkspaceAgentContext
  cases hagents : workspaceSection p files "AGENTS.md" with
  | none =>
    cases huser : workspaceSection p files "USER.md" with
    | none => exact .inl (by simp [hagents, huser])
    | some user =>
      obtain ⟨rest, hrest⟩ := workspaceSection_start huser
      exact .inr ⟨'用', rest, by simp [hagents, huser, hrest], hfirst⟩
  | some agents =>
    obtain ⟨rest, hrest⟩ := workspaceSection_start hagents
    cases huser : workspaceSection p files "USER.md" with
    | none => exact .inr ⟨'用', rest, by simp [hagents, huser, hrest], hfirst⟩
    | some user =>
      have hjoin : String.intercalate "\n\n" [agents, user] = agents ++ "\n\n" ++ user := rfl
      refine .inr ⟨'用', rest ++ ("\n\n".toList ++ user.toList), ?_, hfirst⟩
      simp [hagents, huser, hjoin, hrest]

theorem isSpace_of_mem_rest {cs base rest : List Char} (hbase : cs.rdropWhile PyText.isSpace = base)
    (h : cs = base ++ rest) : ∀ c ∈ rest, PyText.isSpace c := by
  have hsplit : cs.rdropWhile PyText.isSpace ++ cs.rtakeWhile PyText.isSpace = cs :=
    List.rdropWhile_append_rtakeWhile
  rw [hbase] at hsplit
  have hrest : rest = cs.rtakeWhile PyText.isSpace := by
    have happend : base ++ rest = base ++ cs.rtakeWhile PyText.isSpace := by
      rw [hsplit, ← h]
    exact List.append_cancel_left happend
  intro c hc
  rw [hrest] at hc
  exact List.mem_rtakeWhile_imp hc

theorem appendPrompt_eq_self (value : Json F) : appendPrompt p value "" = value := by
  simp [appendPrompt]

variable {value : Json F} {workspacePrompt : String}

theorem appendPrompt_ne (hne : workspacePrompt ≠ "") (hstart : Unindented workspacePrompt) :
    (appendPrompt p value workspacePrompt).sortKeys ≠ value.sortKeys := by
  obtain ⟨first, rest, hfirst, hvisible⟩ := hstart.resolve_left hne
  intro heq
  obtain ⟨text, htext⟩ : ∃ text, appendPrompt p value workspacePrompt = .str text := by
    unfold appendPrompt
    rw [if_neg hne]
    split
    · exact ⟨_, rfl⟩
    · exact ⟨_, rfl⟩
  rw [htext] at heq
  cases value with
  | str s =>
    simp only [Json.sortKeys, Json.str.injEq] at heq
    subst heq
    unfold appendPrompt at htext
    rw [if_neg hne] at htext
    by_cases hs : text = ""
    · -- an empty prompt has been replaced
      have hbase : basePrompt p (.str text) = [] := by
        simp [basePrompt, Permission.truthy, hs]
      rw [if_pos hbase, Json.str.injEq] at htext
      exact hne (htext.trans hs)
    · have hbase : basePrompt p (.str text) = text.toList.rdropWhile PyText.isSpace := by
        simp [basePrompt, Permission.truthy, hs, p.conv.str_str]
      split at htext
      · next hnil =>
          rw [Json.str.injEq] at htext
          rw [hnil] at hbase
          have hall := isSpace_of_mem_rest hbase.symm (List.nil_append _).symm first (by
            rw [← htext, hfirst]
            exact List.mem_cons_self)
          rw [hvisible] at hall
          cases hall
      · rw [Json.str.injEq] at htext
        have hchars := congrArg String.toList htext
        rw [String.toList_ofList, List.append_assoc] at hchars
        have hall := isSpace_of_mem_rest hbase.symm hchars.symm first (by
          rw [hfirst]
          exact List.mem_append_right _ List.mem_cons_self)
        rw [hvisible] at hall
        cases hall
  | null => simp [Json.sortKeys] at heq
  | bool b => simp [Json.sortKeys] at heq
  | int i => simp [Json.sortKeys] at heq
  | float x => simp [Json.sortKeys] at heq
  | arr items => simp [Json.sortKeys] at heq
  | obj fields => simp [Json.sortKeys] at heq

theorem appendPrompt_inj {first second : String} (hfirst : Unindented first)
    (hsecond : Unindented second)
    (h : (appendPrompt p value first).sortKeys = (appendPrompt p value second).sortKeys) :
    first = second := by
  by_cases hne : first = ""
  · by_cases hne' : second = ""
    · rw [hne, hne']
    · rw [hne, appendPrompt_eq_self] at h
      exact absurd h.symm (appendPrompt_ne hne' hsecond)
  · by_cases hne' : second = ""
    · rw [hne', appendPrompt_eq_self] at h
      exact absurd h (appendPrompt_ne hne hfirst)
    · simp only [appendPrompt, if_neg hne, if_neg hne'] at h
      split at h
      · simpa [Json.sortKeys] using h
      · simp only [Json.sortKeys, Json.str.injEq] at h
        have hchars := congrArg String.toList h
        simp only [String.toList_ofList] at hchars
        exact String.toList_injective (List.append_cancel_left hchars)

/-! ## Values in a manifest -/

theorem hash_inj {s t : String} (h : hash p s = hash p t) : s = t :=
  String.toList_injective (p.sha.injective (String.ofList_injective h))

theorem digest_inj {v v' : Json F} (hv : v.WellFormed) (hv' : v'.WellFormed)
    (h : digest p v = digest p v') : v.sortKeys = v'.sortKeys :=
  Json.canonical_inj p.text hv hv' (p.sha.injective (String.ofList_injective h))

theorem optionalStr_inj {s t : Option String}
    (h : (optionalStr s : Json F).sortKeys = (optionalStr t).sortKeys) : s = t := by
  cases s <;> cases t <;> simp_all [optionalStr, Json.sortKeys]

variable (entry : SkillEntry)

theorem SkillEntry.nodup_fields :
    (([("slug", .str entry.slug), ("version", optionalStr entry.version),
      ("content_hash", optionalStr entry.contentHash)] ++
      match entry.preloadContent with
      | none => []
      | some content => [("preload_content_hash", .str (hash p content))] :
        List (String × Json F)).map Prod.fst).Nodup := by
  cases entry.preloadContent <;> simp

theorem SkillEntry.toJson_inj (entry entry' : SkillEntry)
    (h : (entry.toJson p).sortKeys = (entry'.toJson p).sortKeys) : entry = entry' := by
  have hnodup := entry'.nodup_fields (p := p)
  have hslug : (Json.str entry.slug : Json F).sortKeys = (Json.str entry'.slug).sortKeys :=
    Json.sortKeys_field_eq h hnodup (k := "slug") (by simp) (by simp)
  have hversion : (optionalStr entry.version : Json F).sortKeys
      = (optionalStr entry'.version).sortKeys :=
    Json.sortKeys_field_eq h hnodup (k := "version") (by simp) (by simp)
  have hhash : (optionalStr entry.contentHash : Json F).sortKeys
      = (optionalStr entry'.contentHash).sortKeys :=
    Json.sortKeys_field_eq h hnodup (k := "content_hash") (by simp) (by simp)
  have hpreload : entry.preloadContent = entry'.preloadContent := by
    cases hcontent : entry.preloadContent with
    | none =>
      cases hcontent' : entry'.preloadContent with
      | none => rfl
      | some content' =>
        obtain ⟨v, hv, -⟩ := Json.exists_field_of_sortKeys_eq h.symm
          (k := "preload_content_hash") (v := .str (hash p content')) (by simp [hcontent'])
        simp [hcontent] at hv
    | some content =>
      obtain ⟨v, hv, hsorted⟩ := Json.exists_field_of_sortKeys_eq h
        (k := "preload_content_hash") (v := .str (hash p content)) (by simp [hcontent])
      cases hcontent' : entry'.preloadContent with
      | none => simp [hcontent'] at hv
      | some content' =>
        simp only [hcontent', List.mem_append, List.mem_cons, Prod.mk.injEq, String.reduceEq,
          false_and, List.not_mem_nil, or_false, true_and, false_or] at hv
        subst hv
        simp only [Json.sortKeys, Json.str.injEq] at hsorted
        rw [hash_inj hsorted]
  obtain ⟨slug, version, contentHash, preload⟩ := entry
  obtain ⟨slug', version', contentHash', preload'⟩ := entry'
  simp only [Json.sortKeys, Json.str.injEq] at hslug
  cases hslug
  cases optionalStr_inj hversion
  cases optionalStr_inj hhash
  cases hpreload
  rfl

theorem selectionSourceText_inj {a b : ProjectGit.SelectionSource}
    (h : selectionSourceText a = selectionSourceText b) : a = b := by
  cases a <;> cases b <;> simp_all [selectionSourceText]

/-- A repository is determined by its dictionary. -/
theorem GitIdentity.toJson_inj (a b : GitIdentity)
    (h : (a.toJson : Json F).sortKeys = b.toJson.sortKeys) : a = b := by
  have hfield : ∀ (k s t : String),
      (k, Json.str s) ∈ [("alias", Json.str (F := F) a.name), ("repository_id", .str a.repositoryId),
        ("purpose", .str a.purpose), ("task_purpose", .str a.taskPurpose),
        ("base_branch", .str a.baseBranch),
        ("selection_source", .str (selectionSourceText a.selectionSource))] →
      (k, Json.str t) ∈ [("alias", Json.str (F := F) b.name), ("repository_id", .str b.repositoryId),
        ("purpose", .str b.purpose), ("task_purpose", .str b.taskPurpose),
        ("base_branch", .str b.baseBranch),
        ("selection_source", .str (selectionSourceText b.selectionSource))] → s = t := by
    intro k s t hs ht
    have hsorted := Json.sortKeys_field_eq h (by simp) hs ht
    simpa [Json.sortKeys] using hsorted
  obtain ⟨name, repositoryId, purpose, taskPurpose, baseBranch, selectionSource⟩ := a
  obtain ⟨name', repositoryId', purpose', taskPurpose', baseBranch', selectionSource'⟩ := b
  cases hfield "alias" name name' (by simp) (by simp)
  cases hfield "repository_id" repositoryId repositoryId' (by simp) (by simp)
  cases hfield "purpose" purpose purpose' (by simp) (by simp)
  cases hfield "task_purpose" taskPurpose taskPurpose' (by simp) (by simp)
  cases hfield "base_branch" baseBranch baseBranch' (by simp) (by simp)
  have hsource := hfield "selection_source" _ _ (by simp; rfl) (by simp; rfl)
  cases selectionSourceText_inj hsource
  rfl

theorem strings_inj {keys keys' : List String}
    (h : (strings keys : Json F).sortKeys = (strings keys').sortKeys) : keys = keys' := by
  refine Json.map_eq_of_sortKeys_eq (fun a b hab => ?_) h
  simpa [Json.sortKeys] using hab

/-! ## Well-formed values -/

theorem wellFormed_strings : (strings keys : Json F).WellFormed := by
  unfold strings Json.WellFormed
  induction keys with
  | nil => trivial
  | cons key keys ih => exact ⟨trivial, ih⟩

theorem wellFormed_lookup {fields : List (String × Json F)}
    (h : ∀ e ∈ fields, e.2.WellFormed) (name : String) :
    ∀ value, fields.lookup name = some value → value.WellFormed := by
  intro value hvalue
  obtain ⟨before, after, heq, -⟩ := List.lookup_eq_some_iff.mp hvalue
  refine h (name, value) ?_
  rw [heq]
  simp

/-- All attributes of the context are values of Python. -/
def Context.WellFormed (context : Context F) : Prop :=
  ∀ name, (context name).WellFormed

variable {context : Context F}

theorem Context.WellFormed.set (h : Context.WellFormed context)
    (hvalue : value.WellFormed) (name : String) :
    Context.WellFormed (context.set name value) := by
  intro other
  unfold Context.set
  split
  · exact hvalue
  · exact h other

theorem wellFormed_configuredContext (c : RunConfiguration F) :
    Context.WellFormed (configuredContext p c) := by
  intro name
  unfold configuredContext
  split
  · next value hvalue =>
      exact wellFormed_lookup (Json.wellFormedFields_iff.mp c.projectOverride.wellFormed.2) name
        value hvalue
  · split
    · next value hvalue =>
        exact wellFormed_lookup (Json.wellFormedFields_iff.mp c.configured.wellFormed.2) name
          value hvalue
    · cases hdefault : (baseFields p ++ c.backend.extraFields.fields).lookup name with
      | none => trivial
      | some value =>
        refine wellFormed_lookup ?_ name value hdefault
        intro e he
        rcases List.mem_append.mp he with hbase | hextra
        · simp only [baseFields, List.mem_cons, List.not_mem_nil, or_false] at hbase
          rcases hbase with rfl | rfl | rfl | rfl | rfl | rfl | rfl | rfl | rfl | rfl | rfl | rfl |
            rfl | rfl <;> trivial
        · exact Json.wellFormedFields_iff.mp c.backend.extraFields.wellFormed.2 e hextra

theorem wellFormed_requestedContext (c : RunConfiguration F) :
    Context.WellFormed (requestedContext p c) := by
  have hconfigured := wellFormed_configuredContext (p := p) c
  unfold requestedContext
  split
  · split
    · exact (hconfigured.set c.payloadWellFormed.1 _).set c.payloadWellFormed.2 _
    · exact hconfigured.set c.payloadWellFormed.1 _
  · split
    · exact hconfigured.set c.payloadWellFormed.2 _
    · exact hconfigured

theorem wellFormed_appendPrompt (h : value.WellFormed) (workspacePrompt : String) :
    (appendPrompt p value workspacePrompt).WellFormed := by
  unfold appendPrompt
  split
  · exact h
  · split
    · trivial
    · trivial

theorem wellFormed_withDefaultModel (c : RunConfiguration F) (h : Context.WellFormed context) : Context.WellFormed
    (withDefaultModel p c context) := by
  have hmodel : (Json.str c.defaultModel : Json F).WellFormed := trivial
  simp only [withDefaultModel]
  split_ifs
  · exact h.set hmodel "model"
  · exact h
  · exact h.set hmodel "model"
  · exact h

theorem wellFormed_normalizeResources (c : RunConfiguration F) (h : Context.WellFormed context)
    (slugs : List String) :
    Context.WellFormed (normalizeResources c context slugs) := by
  unfold normalizeResources
  have hthree (a b d : List String) := ((h.set (wellFormed_strings a) "tools").set
    (wellFormed_strings b) "knowledges").set (wellFormed_strings d) "mcps"
  split
  · exact (((hthree _ _ _).set (wellFormed_strings _) _).set (wellFormed_strings _) _).set
      (wellFormed_strings _) _
  · exact ((hthree _ _ _).set (wellFormed_strings _) _).set (wellFormed_strings _) _

theorem wellFormed_attemptContext (c : RunConfiguration F) (workspacePrompt : String)
    (selection : SkillSelection) :
    Context.WellFormed (attemptContext p c workspacePrompt selection) := by
  have hrequested := wellFormed_requestedContext (p := p) c
  have hprompt := hrequested.set
    (wellFormed_appendPrompt (p := p) (hrequested "system_prompt") workspacePrompt) "system_prompt"
  have hmodel := wellFormed_withDefaultModel (p := p) c hprompt
  exact ((wellFormed_normalizeResources c hmodel []).set (wellFormed_strings _) _).set
    (wellFormed_strings _) _

variable (backend : Backend F)

theorem wellFormed_effectiveConfig (h : Context.WellFormed context) :
    (effectiveConfig backend context).WellFormed := by
  refine ⟨?_, Json.wellFormedFields_iff.mpr ?_⟩
  · have hnames : (backend.names.map fun name => (name, context name)).map Prod.fst
        = backend.names := by
      simp [Function.comp_def]
    rw [hnames]
    exact backend.nodup_names
  · intro e he
    obtain ⟨name, -, rfl⟩ := List.mem_map.mp he
    exact h name

theorem wellFormed_optionalStr (s : Option String) : (optionalStr s : Json F).WellFormed := by
  cases s <;> trivial

theorem wellFormed_items {α : Type} {encode : α → Json F} (h : ∀ a, (encode a).WellFormed)
    (items : List α) : (Json.arr (items.map encode)).WellFormed := by
  unfold Json.WellFormed
  induction items with
  | nil => trivial
  | cons item items ih => exact ⟨h item, ih⟩

theorem SkillEntry.wellFormed_toJson : (entry.toJson p).WellFormed := by
  refine ⟨entry.nodup_fields, Json.wellFormedFields_iff.mpr ?_⟩
  intro e he
  rcases List.mem_append.mp he with hfixed | hpreload
  · simp only [List.mem_cons, List.not_mem_nil, or_false] at hfixed
    rcases hfixed with rfl | rfl | rfl
    · trivial
    · exact wellFormed_optionalStr entry.version
    · exact wellFormed_optionalStr entry.contentHash
  · split at hpreload
    · cases hpreload
    · rw [List.mem_singleton] at hpreload
      subst hpreload
      trivial

theorem GitIdentity.wellFormed_toJson (repository : GitIdentity) :
    (repository.toJson : Json F).WellFormed := by
  refine ⟨by simp, ?_⟩
  simp [Json.WellFormedFields, Json.WellFormed]

theorem wellFormed_modelSpec (value : Json F) : (modelSpec value).WellFormed := by
  unfold modelSpec
  split
  · split <;> trivial
  · trivial

theorem wellFormed_manifest (c : RunConfiguration F) (h : Context.WellFormed context)
    (entries : List SkillEntry) (repositories : List GitIdentity) :
    (buildManifestPayload p c context entries repositories).WellFormed := by
  have hentries := wellFormed_items (SkillEntry.wellFormed_toJson (p := p)) entries
  have hrepositories := wellFormed_items (F := F) GitIdentity.wellFormed_toJson repositories
  refine ⟨by simp, ?_⟩
  simp only [Json.WellFormedFields, Json.WellFormed, manifestLimitFields, List.map_cons,
    List.map_nil, and_true, true_and]
  refine ⟨?_, ⟨by simp, wellFormed_modelSpec _⟩, h _, ⟨by simp, ?_⟩, ?_⟩
  · simp
  · exact ⟨wellFormed_strings _, wellFormed_strings _, hentries, hrepositories⟩
  · exact ⟨by simp, h _, h _, h _, h _, h _⟩

/-! ## What a fingerprint determines -/

variable {c c' : RunConfiguration F}
  {repositories repositories' : List GitIdentity}

theorem buildManifestPayload_inj {other : Context F}
    {entries entries' : List SkillEntry}
    (h : (buildManifestPayload p c context entries repositories).sortKeys =
      (buildManifestPayload p c' other entries' repositories').sortKeys) :
    digest p (effectiveConfig c.backend context) = digest p (effectiveConfig c'.backend other) ∧
      entries = entries' ∧ repositories = repositories' := by
  have hdigest : (Json.str (digest p (effectiveConfig c.backend context))).sortKeys =
      (Json.str (digest p (effectiveConfig c'.backend other))).sortKeys :=
    Json.sortKeys_field_eq h (by simp) (k := "config_digest") (by simp) (by simp)
  have hresources : (Json.obj [("tools", strings (resourceKeys (context "tools"))),
        ("mcps", strings (resourceKeys (context "mcps"))),
        ("skills", .arr (entries.map (SkillEntry.toJson p))),
        ("git_repositories", .arr (repositories.map GitIdentity.toJson))]).sortKeys =
      (Json.obj [("tools", strings (resourceKeys (other "tools"))),
        ("mcps", strings (resourceKeys (other "mcps"))),
        ("skills", .arr (entries'.map (SkillEntry.toJson p))),
        ("git_repositories", .arr (repositories'.map GitIdentity.toJson))]).sortKeys :=
    Json.sortKeys_field_eq h (by simp) (k := "resources") (by simp) (by simp)
  have hskills : (Json.arr (entries.map (SkillEntry.toJson p))).sortKeys =
      (Json.arr (entries'.map (SkillEntry.toJson p))).sortKeys :=
    Json.sortKeys_field_eq hresources (by simp) (k := "skills") (by simp) (by simp)
  have hgit : (Json.arr (repositories.map GitIdentity.toJson) : Json F).sortKeys =
      (Json.arr (repositories'.map GitIdentity.toJson) : Json F).sortKeys :=
    Json.sortKeys_field_eq hresources (by simp) (k := "git_repositories") (by simp) (by simp)
  refine ⟨by simpa [Json.sortKeys] using hdigest, ?_, ?_⟩
  · exact Json.map_eq_of_sortKeys_eq SkillEntry.toJson_inj hskills
  · exact Json.map_eq_of_sortKeys_eq GitIdentity.toJson_inj hgit

variable {workspacePrompt' : String} {selection selection' : SkillSelection}

theorem attempt_inj (h : fingerprint p (attempt p c workspacePrompt selection repositories) =
      fingerprint p (attempt p c' workspacePrompt' selection' repositories')) :
    (effectiveConfig c.backend (attemptContext p c workspacePrompt selection)).sortKeys =
        (effectiveConfig c'.backend (attemptContext p c' workspacePrompt' selection')).sortKeys ∧
      selection.entries = selection'.entries ∧ repositories = repositories' := by
  have hcontext := wellFormed_attemptContext (p := p) c workspacePrompt selection
  have hcontext' := wellFormed_attemptContext (p := p) c' workspacePrompt' selection'
  have hmanifest := digest_inj
    (wellFormed_manifest c hcontext selection.entries repositories)
    (wellFormed_manifest c' hcontext' selection'.entries repositories') h
  obtain ⟨hdigest, hentries, hrepositories⟩ := buildManifestPayload_inj hmanifest
  refine ⟨?_, hentries, hrepositories⟩
  exact digest_inj (wellFormed_effectiveConfig c.backend hcontext)
    (wellFormed_effectiveConfig c'.backend hcontext') hdigest

theorem effectiveConfig_field {backend : Backend F} {context' : Context F}
    (h : (effectiveConfig backend context).sortKeys = (effectiveConfig backend context').sortKeys)
    (hname : name ∈ backend.names) :
    (context name).sortKeys = (context' name).sortKeys := by
  have hnodup : ((backend.names.map fun name => (name, context' name)).map Prod.fst).Nodup := by
    have hnames : (backend.names.map fun name => (name, context' name)).map Prod.fst
        = backend.names := by
      simp [Function.comp_def]
    rw [hnames]
    exact backend.nodup_names
  exact Json.sortKeys_field_eq h hnodup (List.mem_map_of_mem hname) (List.mem_map_of_mem hname)

theorem attemptContext_prompt (c : RunConfiguration F) (workspacePrompt : String)
    (selection : SkillSelection) : attemptContext p c workspacePrompt selection "system_prompt" =
      appendPrompt p (requestedContext p c "system_prompt") workspacePrompt := by
  have hmodel := withDefaultModel_of_ne (p := p) c ((requestedContext p c).set "system_prompt"
    (appendPrompt p (requestedContext p c "system_prompt") workspacePrompt))
    (show "system_prompt" ≠ "model" by decide)
  simp only [attemptContext]
  rw [Context.set, if_neg (by decide), Context.set, if_neg (by decide), normalizeResources_prompt,
    hmodel, Context.set, if_pos rfl]

theorem attemptContext_skills (c : RunConfiguration F) (workspacePrompt : String)
    (selection : SkillSelection) :
    attemptContext p c workspacePrompt selection "skills" = strings selection.contextSkills := by
  simp [attemptContext, Context.set]

theorem attemptContext_preloads (c : RunConfiguration F) (workspacePrompt : String)
    (selection : SkillSelection) : attemptContext p c workspacePrompt selection "preload_skills" =
      strings selection.contextPreloadSkills := by
  simp [attemptContext, Context.set]

theorem mem_names_of_mem_baseNames (h : name ∈ baseNames) :
    name ∈ backend.names :=
  List.mem_append_left _ h

theorem attempt_inj_of_configuration (hprompt : Unindented workspacePrompt)
    (hprompt' : Unindented workspacePrompt')
    (h : fingerprint p (attempt p c workspacePrompt selection repositories) =
      fingerprint p (attempt p c workspacePrompt' selection' repositories')) :
    workspacePrompt = workspacePrompt' ∧ selection = selection' ∧ repositories = repositories' := by
  obtain ⟨hconfig, hentries, hrepositories⟩ := attempt_inj h
  have hfield : ∀ name ∈ baseNames,
      (attemptContext p c workspacePrompt selection name).sortKeys =
        (attemptContext p c workspacePrompt' selection' name).sortKeys := fun name hname =>
    effectiveConfig_field hconfig (mem_names_of_mem_baseNames c.backend hname)
  have hsystem := hfield "system_prompt" (by decide)
  rw [attemptContext_prompt, attemptContext_prompt] at hsystem
  have hskills := hfield "skills" (by decide)
  rw [attemptContext_skills, attemptContext_skills] at hskills
  have hpreloads := hfield "preload_skills" (by decide)
  rw [attemptContext_preloads, attemptContext_preloads] at hpreloads
  refine ⟨appendPrompt_inj hprompt hprompt' hsystem, ?_, hrepositories⟩
  obtain ⟨contextSkills, contextPreloadSkills, entries⟩ := selection
  obtain ⟨contextSkills', contextPreloadSkills', entries'⟩ := selection'
  cases strings_inj hskills
  cases strings_inj hpreloads
  cases hentries
  rfl

/-! ## Retries -/

variable (p)

/-- The work of a run has left alone what the next attempt reads: the prompt that is loaded from the
workspace, the resolved skills with their preloaded texts, and the repositories of the task. -/
def WorkUnchanged (c : RunConfiguration F) (w w' : World) : Prop :=
  loadWorkspaceAgentContext p w'.files = loadWorkspaceAgentContext p w.files ∧
    skillSelection p c w'.files = skillSelection p c w.files ∧
    gitRepositories c w'.git = gitRepositories c w.git

/-- An attempt that returns, from what it has read. -/
theorem prepareRunExecution_eq_ok {w : World}
    {prepared : PreparedRunExecution F} (h : prepareRunExecution p c w = .ok prepared) :
    ¬ (c.runType = "subagent" ∧ PyText.strip c.parentThreadId = "") ∧
      ∃ selection, skillSelection p c w.files = .ok selection ∧
        prepared = attempt p c (loadWorkspaceAgentContext p w.files) selection
          (gitRepositories c w.git) := by
  rw [prepareRunExecution_eq] at h
  split at h
  · cases h
  · next hparent =>
      cases hselection : skillSelection p c w.files with
      | error e => simp [hselection, Except.map] at h
      | ok selection =>
        simp only [hselection, Except.map, Except.ok.injEq] at h
        exact ⟨hparent, selection, rfl, h.symm⟩

theorem requirePersistedManifestMatch_eq_ok {recorded current : String} :
    requirePersistedManifestMatch recorded current = .ok () ↔ recorded = current := by
  unfold requirePersistedManifestMatch
  split
  · next h => simp [h]
  · next h => simp [h]

/-- A retry passes if and only if the work of the run has left prompt, skills and repositories
alone; and attempts with one fingerprint, of whatever configuration, agree in every configurable
field and in the texts of the preloaded skills. -/
theorem retry_matches_iff (naming : Naming) (c : RunConfiguration F) (w : World)
    (steps : List RunStep) (prepared : PreparedRunExecution F)
    (h : prepareRunExecution p c w = .ok prepared) :
    ((∃ retried,
        prepareRunExecution p c (Transition.exec (worldStep naming c) w steps) = .ok retried ∧
          requirePersistedManifestMatch (fingerprint p prepared) (fingerprint p retried) = .ok ()) ↔
      WorkUnchanged p c w (Transition.exec (worldStep naming c) w steps)) ∧
    ∀ (c' : RunConfiguration F) (w' : World) (other : PreparedRunExecution F),
      prepareRunExecution p c' w' = .ok other → fingerprint p prepared = fingerprint p other →
        (effectiveConfig c.backend prepared.context).sortKeys =
            (effectiveConfig c'.backend other.context).sortKeys ∧
          prepared.skillEntries = other.skillEntries := by
  obtain ⟨hparent, selection, hselection, rfl⟩ := prepareRunExecution_eq_ok p h
  refine ⟨⟨?_, ?_⟩, ?_⟩
  · rintro ⟨retried, hretried, hmatch⟩
    obtain ⟨-, selection', hselection', rfl⟩ := prepareRunExecution_eq_ok p hretried
    have hsame := attempt_inj_of_configuration (unindented_loadWorkspaceAgentContext _)
      (unindented_loadWorkspaceAgentContext _) (requirePersistedManifestMatch_eq_ok.mp hmatch)
    obtain ⟨hprompt, hskills, hgit⟩ := hsame
    exact ⟨hprompt.symm, by rw [hselection, hselection', hskills], hgit.symm⟩
  · rintro ⟨hprompt, hskills, hgit⟩
    refine ⟨attempt p c (loadWorkspaceAgentContext p w.files) selection (gitRepositories c w.git),
      ?_, requirePersistedManifestMatch_eq_ok.mpr rfl⟩
    rw [prepareRunExecution_eq, if_neg hparent, hskills, hselection, hprompt, hgit]
    rfl
  · intro c' w' other hother hfingerprint
    obtain ⟨-, selection', -, rfl⟩ := prepareRunExecution_eq_ok p hother
    obtain ⟨hconfig, hentries, -⟩ := attempt_inj hfingerprint
    exact ⟨hconfig, hentries⟩


/-! ## A run that writes a prompt file -/

/-- The configurable fields that the sample run is prepared with. -/
def sampleConfig : Json Unit :=
  .obj
    [("system_prompt", .str "You are a helpful assistant."), ("model", .str "openai/gpt-5"),
      ("tool_approval_mode", .str "default"), ("tools", .arr []), ("knowledges", .arr []),
      ("mcps", .arr []), ("skills", .arr []), ("preload_skills", .arr []),
      ("summary_threshold", .int 100), ("summary_keep_messages", .int 10),
      ("summary_prompt", .str "Summarise."), ("summary_tool_result_token_limit", .int 300),
      ("max_execution_steps", .int 300), ("model_retry_times", .int 2)]

def sampleConfigDigest : String :=
  "51234f03dba9a941f84f52d92006f6edea3cf0f5661743f61c8cdcd6df26a0b3"

/-- The manifest of the sample run. -/
def sampleManifest : Json Unit :=
  .obj
    [("manifest_version", .int 3), ("run_type", .str "chat"),
      ("agent", .obj [("slug", .str "assistant"), ("backend_id", .str "ChatbotAgent")]),
      ("model", .obj [("spec", .str "openai/gpt-5")]), ("tool_approval_mode", .str "default"),
      ("resources", .obj
        [("tools", .arr []), ("mcps", .arr []), ("skills", .arr []), ("git_repositories", .arr [])]),
      ("limits", .obj
        [("max_execution_steps", .int 300), ("model_retry_times", .int 2),
          ("summary_threshold", .int 100), ("summary_keep_messages", .int 10),
          ("summary_tool_result_token_limit", .int 300)]),
      ("config_digest", .str sampleConfigDigest), ("code_revision", .str "unresolved")]

def sampleFingerprint : String :=
  "eef573e5e782623a0bffd7797de73dd09563889abf5c2528c0197632edaf75cd"

/-- SHA-256 on the two texts that are hashed. -/
def sampleSha : CodingCredentials.Sha256 where
  hexdigest := CodingCredentials.hexdigestWith
    (Json.canonical .zero sampleConfig) sampleConfigDigest.toList
    (Json.canonical .zero sampleManifest) sampleFingerprint.toList
  injective := CodingCredentials.hexdigestWith_injective (by decide +kernel) (by decide +kernel)
    (by decide +kernel)
  noBar := CodingCredentials.bar_notMem_hexdigestWith (by decide +kernel) (by decide +kernel)
  ne_nil := CodingCredentials.hexdigestWith_ne_nil (by decide +kernel) (by decide +kernel)

def sampleConversions : Conversions Unit where
  truthy _ := false
  eqTwo _ := false
  int
    | .int i => .ok i
    | .bool b => .ok (if b then 1 else 0)
    | _ => .error .typeError
  str
    | .str s => s
    | .int i => toString i
    | _ => "None"
  int_int := fun _ => rfl
  str_str := fun _ => rfl

/-- Texts in ASCII, and no personal skills. -/
def samplePlatform : Platform Unit where
  text := .zero
  conv := sampleConversions
  sha := sampleSha
  decode content := String.ofList (content.map fun byte => Char.ofNat byte.toNat)
  scanPersonalSkills _ := []
  skillText _ _ := none
  defaultSummaryPrompt := "你是对话上下文压缩助手。"

def sampleRun : RunConfiguration Unit where
  runType := "chat"
  agentSlug := "assistant"
  backend := { id := "ChatbotAgent", extraFields := .empty, disjoint := by decide }
  configured :=
    { fields := [("summary_prompt", .str "Summarise.")]
      wellFormed := ⟨by decide, trivial, trivial⟩ }
  projectOverride := .empty
  payloadModelSpec := .null
  payloadToolApprovalMode := .null
  parentThreadId := ""
  payloadWellFormed := ⟨trivial, trivial⟩
  defaultModel := "openai/gpt-5"
  availableTools := []
  availableKnowledges := []
  availableMcps := []
  availableSubagents := []
  user := { uid := "alice", role := "user", departmentId := none }
  skillTable := .empty
  codeRevision := ""
  runtimeScopeId := "thread"
  repositoryPurpose _ := ""

def sampleWorld : World where
  files _ := .absent
  git := { repositories := .empty, worktrees := .empty }

def sampleNaming : Naming where
  taskKey _ scope := scope
  branch _ key _ := key
  relativePath key _ := key
  allocated _ := true
  lower := id

/-- The instructions that the agent writes for itself. -/
def sampleInstructions : RunStep :=
  .writeFile "/agents/AGENTS.md" (.regular "Be brief.".toUTF8.toList)

/-- What the agent is asked to remember. -/
def sampleMemory : RunStep :=
  .rememberMemory (.regular "Prefers short answers.".toUTF8.toList)

theorem prepareRunExecution_sample :
    prepareRunExecution samplePlatform sampleRun sampleWorld =
      .ok (attempt samplePlatform sampleRun "" ⟨[], [], []⟩ []) := by
  have hselection : skillSelection samplePlatform sampleRun sampleWorld.files =
      .ok ⟨[], [], []⟩ := by
    decide +kernel
  rw [prepareRunExecution_eq, if_neg (by decide), hselection]
  rfl

/-- A run that has written the prompt file of the workspace is not executed again. -/
theorem written_prompt_file_refuses_retry :
    ¬ ∀ (p : Platform Unit) (naming : Naming) (c : RunConfiguration Unit) (w : World)
      (steps : List RunStep) (prepared : PreparedRunExecution Unit),
      prepareRunExecution p c w = .ok prepared →
        ∃ retried,
          prepareRunExecution p c (Transition.exec (worldStep naming c) w steps) = .ok retried ∧
            requirePersistedManifestMatch (fingerprint p prepared) (fingerprint p retried) =
              .ok () := by
  intro h
  obtain ⟨retried, hretried, hmatch⟩ := h samplePlatform sampleNaming sampleRun sampleWorld
    [sampleInstructions] _ prepareRunExecution_sample
  obtain ⟨-, selection, -, rfl⟩ := prepareRunExecution_eq_ok samplePlatform hretried
  have hsame := attempt_inj_of_configuration (.inl rfl)
    (unindented_loadWorkspaceAgentContext _) (requirePersistedManifestMatch_eq_ok.mp hmatch)
  have hwritten : loadWorkspaceAgentContext samplePlatform
      (Transition.exec (worldStep sampleNaming sampleRun) sampleWorld [sampleInstructions]).files
        ≠ "" := by
    decide +kernel
  exact hwritten hsame.1.symm

/-- A run that has remembered something passes. -/
theorem remembered_memory_retry_matches :
    prepareRunExecution samplePlatform sampleRun sampleWorld =
        .ok (attempt samplePlatform sampleRun "" ⟨[], [], []⟩ []) ∧
      ∃ retried,
        prepareRunExecution samplePlatform sampleRun
            (Transition.exec (worldStep sampleNaming sampleRun) sampleWorld [sampleMemory]) =
          .ok retried ∧
        requirePersistedManifestMatch
            (fingerprint samplePlatform (attempt samplePlatform sampleRun "" ⟨[], [], []⟩ []))
            (fingerprint samplePlatform retried) = .ok () := by
  refine ⟨prepareRunExecution_sample, ?_⟩
  have hretry := retry_matches_iff samplePlatform sampleNaming sampleRun sampleWorld [sampleMemory]
    _ prepareRunExecution_sample
  refine hretry.1.mpr ⟨?_, ?_, ?_⟩
  · decide +kernel
  · decide +kernel
  · rfl

end Yuanlei.RunManifest
