import Yuanlei.Workspace.Confinement

/-!
# Runtime paths of a Workdir

The Sandbox sees a Workdir under a prefix of its own.  `runtime_path_for_workdir_scope` maps a
path of the Workdir there and `workdir_scope_from_runtime_path` maps it back.  Both compare and
cut texts, so the way back works for a prefix in normal form only, and the way there rejects a
path in which the end of the root and a doubled slash look like a URL scheme.

Main results:

- `runtime_roundTrip`: a path with a clean last component comes back as its components.
- `normalPrefix_of_scope`: no path comes back from under another prefix.
-/

namespace Yuanlei

open PosixPath

open PyText (isSpace stripChars)

open FileTree

open Workspace

/-! ## The mappings -/

def defaultVirtualPathPrefix : Text :=
  "/home/gem/user-data".toList

/-- `_get_virtual_path_prefix` on the value of the environment variable. -/
def getVirtualPathPrefix (env : Option Text) : Text :=
  let given := orText (env.getD []) defaultVirtualPathPrefix
  let stripped := orText (stripChars given) defaultVirtualPathPrefix
  if ['/'] <+: stripped then stripped else '/' :: stripped

section Mappings

variable (virtualPath : Text)

def runtimeWorkdirPath (workdirPath : Text) : Except WorkspaceError Text := do
  let normalized ← normalizeWorkdirPath workdirPath
  pure (rstripSlashes virtualPath ++ '/' :: normalized)

def runtimeUserDataPath (workspacePath : Text) : Except WorkspaceError Text :=
  let raw := stripChars workspacePath
  if !isAbsolute raw ∨ "..".toList ∈ components raw ∨ '\\' ∈ raw ∨ "://".toList <:+: raw then
    .error (.value "invalid Workspace scope path")
  else
    let root := rstripSlashes virtualPath
    if asPosix raw = ['/'] then .ok root else .ok (root ++ asPosix raw)

def runtimePathForWorkdirScope (workdirPath path : Text) : Except WorkspaceError Text :=
  let raw := Workdir.scopeText path
  if Workdir.rejects path then .error (.value "invalid Workdir scope path")
  else do
    let normalized ← normalizeWorkdirPath workdirPath
    let workspaceRoot := '/' :: normalized
    let workspacePath :=
      if asPosix raw = ['/'] then workspaceRoot else workspaceRoot ++ asPosix raw
    runtimeUserDataPath virtualPath workspacePath

def workdirScopeFromRuntimePath (workdirPath runtimePath : Text) : Except WorkspaceError Text := do
  let normalized := asPosix runtimePath
  let runtimeRoot ← runtimeWorkdirPath virtualPath workdirPath
  let root := rstripSlashes runtimeRoot
  if normalized = root then pure ['/']
  else if root ++ ['/'] <+: normalized then pure ('/' :: normalized.drop (root.length + 1))
  else .error (.value "runtime path is outside the Workdir")

end Mappings

/-! ## Normal forms -/

/-- The prefix without its trailing slashes is empty or in normal form. -/
def NormalPrefix (virtualPath : Text) : Prop :=
  rstripSlashes virtualPath = [] ∨ asPosix (rstripSlashes virtualPath) = rstripSlashes virtualPath

instance (virtualPath : Text) : Decidable (NormalPrefix virtualPath) :=
  inferInstanceAs (Decidable (_ ∨ _))

example : NormalPrefix (getVirtualPathPrefix none) := by
  decide

theorem rstripSlashes_concat {s : Text} {c : Char} (h : c ≠ '/') :
    rstripSlashes (s ++ [c]) = s ++ [c] := by
  simp [rstripSlashes, h]

variable (s : Text)

/-- Without its trailing slashes a text is empty or ends in another character. -/
theorem rstripSlashes_cases :
    rstripSlashes s = [] ∨ ∃ t c, rstripSlashes s = t ++ [c] ∧ c ≠ '/' := by
  by_cases hnil : rstripSlashes s = []
  · exact .inl hnil
  · right
    refine ⟨(rstripSlashes s).dropLast, (rstripSlashes s).getLast hnil,
      (List.dropLast_append_getLast hnil).symm, ?_⟩
    intro hslash
    exact List.rdropWhile_last_not (· == '/') s hnil (beq_iff_eq.mpr hslash)

theorem exists_rstripSlashes_append :
    ∃ k, s = rstripSlashes s ++ List.replicate k '/' := by
  induction s using List.reverseRecOn with
  | nil => exact ⟨0, rfl⟩
  | append_singleton s c ih =>
    by_cases hc : c = '/'
    · subst hc
      obtain ⟨k, hk⟩ := ih
      have hdrop : rstripSlashes (s ++ ['/']) = rstripSlashes s := by
        simp [rstripSlashes]
      refine ⟨k + 1, ?_⟩
      rw [hdrop, List.replicate_succ', ← List.append_assoc, ← hk]
    · exact ⟨0, by rw [rstripSlashes_concat hc]; simp⟩

theorem components_append_slashes (k : Nat) :
    components (s ++ List.replicate k '/') = components s := by
  induction k with
  | zero => simp
  | succ k ih =>
    rw [List.replicate_succ', ← List.append_assoc]
    simpa [ih] using components_append_slash (s ++ List.replicate k '/') []

theorem components_rstripSlashes : components (rstripSlashes s) = components s := by
  obtain ⟨k, hk⟩ := exists_rstripSlashes_append s
  conv_rhs => rw [hk]
  rw [components_append_slashes]

/-! ## The way there -/

namespace Workdir

variable (w : Workdir)

/-- The end of the root and a doubled slash would read as the scheme of a URL. -/
def ReadsAsScheme (path : Text) : Prop :=
  rootOf (scopeText path) = ['/', '/'] ∧ ∃ t, w.relativePath = t ++ [':']

variable {path : Text}

theorem isComponent_of_mem_append {part : Text} (h : part ∈ w.parts ++ scopeParts path) :
    IsComponent part := by
  rcases List.mem_append.mp h with h | h
  · exact isComponent_of_mem h
  · exact isComponent_of_mem h

theorem exists_relativePath_eq : ∃ t, w.relativePath = t ++ w.parts.getLast w.parts_ne_nil := by
  have hlast := List.dropLast_append_getLast w.parts_ne_nil
  rw [← w.join_parts]
  by_cases hinit : w.parts.dropLast = []
  · refine ⟨[], ?_⟩
    conv_lhs => rw [← hlast, hinit]
    simp
  · refine ⟨join w.parts.dropLast ++ ['/'], ?_⟩
    conv_lhs => rw [← hlast, join_append hinit (by simp)]
    simp

variable {resolved : Text}

theorem no_scheme_resolved (h : w.resolvePath path = .ok resolved)
    (hparts : scopeParts path ≠ []) (hscheme : ¬ w.ReadsAsScheme path) :
    ¬ "://".toList <:+: resolved := by
  obtain ⟨-, habsolute, -, -, suffix, rfl, hsuffix⟩ := w.resolvePath_eq_ok h
  obtain rfl := (hsuffix.resolve_left fun hnil => hparts hnil.2)
  rcases rootOf_cases habsolute with hroot | hroot
  · have htext : w.rootPath ++ (rootOf (scopeText path) ++ join (scopeParts path)) =
        '/' :: join (w.parts ++ scopeParts path) := by
      rw [hroot, join_append w.parts_ne_nil hparts, w.join_parts]
      rfl
    rw [htext]
    exact no_scheme_slash_join fun c hc => w.isComponent_of_mem_append hc
  · -- The only empty piece behind another one is the one between root and path.
    intro hinfix
    obtain ⟨pieces, c, rest, hsplit⟩ := splitOn_of_scheme hinfix
    have hcomponents : ∀ part ∈ scopeParts path, IsComponent part := fun part hpart =>
      isComponent_of_mem hpart
    have htext : w.rootPath ++ (rootOf (scopeText path) ++ join (scopeParts path)) =
        w.rootPath ++ '/' :: ('/' :: join (scopeParts path)) := by
      rw [hroot]
      rfl
    have hrootPieces : w.rootPath.splitOn '/' = [] :: w.parts := by
      rw [rootPath, splitOn_slash, ← w.parts_eq]
    rw [htext, List.splitOn_append_cons_self, splitOn_slash_join hparts hcomponents,
      hrootPieces] at hsplit
    have hnonempty : ∀ {part}, part ∈ w.parts → part ≠ [] := fun hpart =>
      (isComponent_of_mem hpart).2.1
    apply hscheme
    refine ⟨hroot, ?_⟩
    have hsame : [] :: w.parts = pieces ++ [c ++ [':']] := by
      rcases List.append_eq_append_iff.mp hsplit with ⟨e, hleft, hright⟩ | ⟨e, hleft, hright⟩
      · cases e with
        | nil => simpa using hleft.symm
        | cons first e =>
          simp only [List.cons_append, List.cons.injEq] at hright
          have hmem : [] ∈ scopeParts path := by
            rw [hright.2]
            simp
          exact absurd rfl (hcomponents [] hmem).2.1
      · cases e with
        | nil => simpa using hleft
        | cons first e =>
          obtain ⟨rfl, -⟩ := hright
          have hmem : [] ∈ w.parts := by
            cases pieces with
            | nil => simp at hleft
            | cons p pieces =>
              simp only [List.cons_append, List.cons.injEq] at hleft
              rw [hleft.2]
              simp
          exact absurd rfl (hnonempty hmem)
    have hlast : w.parts.getLast w.parts_ne_nil = c ++ [':'] := by
      have hgetLast := congrArg List.getLast? hsame
      rw [List.getLast?_cons, List.getLast?_append] at hgetLast
      simpa [List.getLast?_eq_some_getLast w.parts_ne_nil] using hgetLast
    obtain ⟨t, ht⟩ := w.exists_relativePath_eq
    exact ⟨t ++ c, by rw [ht, hlast]; simp⟩

theorem stripChars_resolved (h : w.resolvePath path = .ok resolved)
    (hparts : scopeParts path ≠ []) (hclean : ¬ EndsInSpace (lastPart path)) :
    stripChars resolved = resolved := by
  obtain ⟨front, hresolved, -⟩ := w.exists_resolved_eq h hparts
  have hrstrip : rstrip (lastPart path) = lastPart path := not_not.mp hclean
  rw [hresolved, stripChars_slash_append, hrstrip]

variable (virtualPath : Text)

section

variable (h : w.resolvePath path = .ok resolved)
include h

theorem runtimePathForWorkdirScope_eq :
    runtimePathForWorkdirScope virtualPath w.workdirPath path =
      runtimeUserDataPath virtualPath resolved := by
  have haccepts := (w.resolvePath_eq_ok h).1
  unfold resolvePath at h
  unfold runtimePathForWorkdirScope
  rw [haccepts] at h ⊢
  simp only [Bool.false_eq_true, if_false, w.normalized] at h ⊢
  split_ifs at h with hroot
  · cases h
    simp only [bind, Except.bind, if_pos hroot]
    rfl
  · cases h
    simp only [bind, Except.bind, if_neg hroot]
    rfl

theorem runtimePath_of_clean (hparts : scopeParts path ≠ [])
    (hclean : ¬ EndsInSpace (lastPart path)) (hscheme : ¬ w.ReadsAsScheme path) :
    runtimePathForWorkdirScope virtualPath w.workdirPath path =
      .ok (rstripSlashes virtualPath ++ '/' :: join (w.parts ++ scopeParts path)) := by
  have hstrip := w.stripChars_resolved h hparts hclean
  have hbackslash := w.backslash_not_mem_resolved h
  have hposix := w.asPosix_resolved h
  have hcomponents := w.components_resolved h
  have hnoScheme := w.no_scheme_resolved h hparts hscheme
  have hdots : "..".toList ∉ w.parts ++ scopeParts path := by
    intro hmem
    rcases List.mem_append.mp hmem with hmem | hmem
    · exact w.dotdot_not_mem_parts hmem
    · exact (w.resolvePath_eq_ok h).2.2.1 hmem
  have habsolute : isAbsolute resolved := by
    obtain ⟨-, -, -, -, suffix, rfl, -⟩ := w.resolvePath_eq_ok h
    exact w.isAbsolute_rootPath_append suffix
  have hne : join (w.parts ++ scopeParts path) ≠ [] :=
    join_ne_nil (by simp [hparts]) fun c hc => w.isComponent_of_mem_append hc
  rw [w.runtimePathForWorkdirScope_eq virtualPath h, runtimeUserDataPath]
  rw [hstrip] at hbackslash ⊢
  simp only [hcomponents, hposix]
  rw [if_neg, if_neg (by simpa using hne)]
  rintro (hrelative | hmem | hmem | hmem)
  · simp [habsolute] at hrelative
  · exact hdots hmem
  · exact hbackslash hmem
  · exact hnoScheme hmem

theorem not_readsAsScheme {runtime : Text} (hparts : scopeParts path ≠ [])
    (hclean : ¬ EndsInSpace (lastPart path))
    (hruntime : runtimePathForWorkdirScope virtualPath w.workdirPath path = .ok runtime) :
    ¬ w.ReadsAsScheme path := by
  rintro ⟨hroot, t, ht⟩
  rw [w.runtimePathForWorkdirScope_eq virtualPath h, runtimeUserDataPath,
    w.stripChars_resolved h hparts hclean] at hruntime
  have hscheme : "://".toList <:+: resolved := by
    obtain ⟨-, -, -, -, suffix, rfl, hsuffix⟩ := w.resolvePath_eq_ok h
    obtain rfl := hsuffix.resolve_left fun hnil => hparts hnil.2
    rw [hroot, rootPath, ht]
    exact ⟨'/' :: t, join (scopeParts path), by simp⟩
  simp only [hscheme, or_true, if_true] at hruntime
  cases hruntime

end

end Workdir

/-! ## The way back -/

theorem isAbsolute_getVirtualPathPrefix (env : Option Text) :
    isAbsolute (getVirtualPathPrefix env) := by
  unfold getVirtualPathPrefix
  simp only
  split_ifs with hslash
  · obtain ⟨t, ht⟩ := hslash
    exact isAbsolute_iff.mpr ⟨t, ht.symm⟩
  · exact isAbsolute_iff.mpr ⟨_, rfl⟩

section WayBack

variable {virtualPath : Text} (habsolute : isAbsolute virtualPath)

include habsolute

theorem isAbsolute_rstripSlashes {t : Text} {c : Char}
    (hconcat : rstripSlashes virtualPath = t ++ [c]) (hc : c ≠ '/') :
    isAbsolute (rstripSlashes virtualPath) := by
  obtain ⟨u, hu⟩ := isAbsolute_iff.mp habsolute
  obtain ⟨k, hk⟩ := exists_rstripSlashes_append virtualPath
  rw [hconcat] at hk ⊢
  cases t with
  | nil =>
    rw [hu] at hk
    simp only [List.nil_append, List.cons_append, List.cons.injEq] at hk
    exact absurd hk.1.symm hc
  | cons a t =>
    rw [hu] at hk
    simp only [List.cons_append, List.cons.injEq] at hk
    exact isAbsolute_iff.mpr ⟨t ++ [c], by rw [← hk.1]; rfl⟩

theorem NormalPrefix.cases (h : NormalPrefix virtualPath) :
    rstripSlashes virtualPath = [] ∨ ∃ r cs, IsRoot r ∧ cs ≠ [] ∧ (∀ c ∈ cs, IsComponent c) ∧
      rstripSlashes virtualPath = r ++ join cs := by
  rcases rstripSlashes_cases virtualPath with hnil | ⟨t, c, hconcat, hc⟩
  · exact .inl hnil
  · right
    have hnormal : asPosix (rstripSlashes virtualPath) = rstripSlashes virtualPath :=
      h.resolve_left (by simp [hconcat])
    have habsolute' := isAbsolute_rstripSlashes habsolute hconcat hc
    rw [asPosix_of_absolute habsolute'] at hnormal
    refine ⟨_, _, rootOf_cases habsolute', ?_, fun c hc => isComponent_of_mem hc, hnormal.symm⟩
    intro hnone
    rw [hnone, join_nil, List.append_nil] at hnormal
    have hlast : c ∈ rootOf (rstripSlashes virtualPath) := by
      rw [hnormal, hconcat]
      simp
    rcases rootOf_cases habsolute' with hroot | hroot
    · rw [hroot] at hlast
      exact hc (by simpa using hlast)
    · rw [hroot] at hlast
      exact hc (by simpa using hlast)

variable {cs : List Text}

theorem NormalPrefix.asPosix_append (h : NormalPrefix virtualPath) (hne : cs ≠ [])
    (hcs : ∀ c ∈ cs, IsComponent c) :
    asPosix (rstripSlashes virtualPath ++ '/' :: join cs) =
      rstripSlashes virtualPath ++ '/' :: join cs := by
  rcases NormalPrefix.cases habsolute h with hnil | ⟨r, ds, hr, hds, hcomponents, heq⟩
  · rw [hnil]
    exact asPosix_append_join (.inl rfl) hne hcs
  · have htext : rstripSlashes virtualPath ++ '/' :: join cs = r ++ join (ds ++ cs) := by
      rw [heq, join_append hds hne, List.append_assoc]
    rw [htext]
    apply asPosix_append_join hr (by simp [hds])
    intro c hc
    rcases List.mem_append.mp hc with hc | hc
    · exact hcomponents c hc
    · exact hcs c hc

omit habsolute in
theorem runtimeWorkdirPath_eq (w : Workdir) : runtimeWorkdirPath virtualPath w.workdirPath =
    .ok (rstripSlashes virtualPath ++ w.rootPath) := by
  unfold runtimeWorkdirPath
  rw [w.normalized]
  rfl

omit habsolute in
theorem rstripSlashes_append_rootPath (w : Workdir) (s : Text) :
    rstripSlashes (s ++ w.rootPath) = s ++ w.rootPath := by
  have hroot := w.rstripSlashes_rootPath
  have hne : w.rootPath ≠ [] := by simp [Workdir.rootPath]
  obtain hnil | ⟨t, c, hconcat, hc⟩ := rstripSlashes_cases w.rootPath
  · rw [hroot] at hnil
    exact absurd hnil hne
  · rw [hroot] at hconcat
    rw [hconcat, ← List.append_assoc]
    exact rstripSlashes_concat hc

theorem workdirScope_of_runtime (h : NormalPrefix virtualPath) (w : Workdir) (hne : cs ≠ [])
    (hcs : ∀ c ∈ cs, IsComponent c) :
    workdirScopeFromRuntimePath virtualPath w.workdirPath
      (rstripSlashes virtualPath ++ '/' :: join (w.parts ++ cs)) = .ok ('/' :: join cs) := by
  have hcomponents : ∀ c ∈ w.parts ++ cs, IsComponent c := by
    intro c hc
    rcases List.mem_append.mp hc with hc | hc
    · exact isComponent_of_mem hc
    · exact hcs c hc
  have hnormal := NormalPrefix.asPosix_append habsolute h (by simp [hne]) hcomponents
  have htext : rstripSlashes virtualPath ++ '/' :: join (w.parts ++ cs) =
      (rstripSlashes virtualPath ++ w.rootPath) ++ '/' :: join cs := by
    rw [join_append w.parts_ne_nil hne, w.join_parts]
    simp [Workdir.rootPath]
  unfold workdirScopeFromRuntimePath
  simp only [hnormal, runtimeWorkdirPath_eq, bind, Except.bind, rstripSlashes_append_rootPath]
  have hdrop : ∀ X y : Text, (X ++ '/' :: y).drop (X.length + 1) = y := by
    intro X y
    have hsplit : X ++ '/' :: y = (X ++ ['/']) ++ y := by simp
    rw [hsplit, List.drop_left' (by simp)]
  rw [htext, if_neg (by simp), if_pos ⟨join cs, by simp⟩, hdrop]
  rfl

variable {w : Workdir}

theorem normalPrefix_of_scope {runtime scope : Text}
    (h : workdirScopeFromRuntimePath virtualPath w.workdirPath runtime = .ok scope) :
    NormalPrefix virtualPath := by
  rcases rstripSlashes_cases virtualPath with hnil | ⟨t, c, hconcat, hc⟩
  · exact .inl hnil
  · right
    -- The text starts with the prefix and a slash.
    have hleading : ∃ z, asPosix runtime = rstripSlashes virtualPath ++ '/' :: z := by
      unfold workdirScopeFromRuntimePath at h
      simp only [runtimeWorkdirPath_eq, bind, Except.bind, rstripSlashes_append_rootPath] at h
      split_ifs at h with hsame hbelow
      · exact ⟨w.relativePath, by rw [hsame]; rfl⟩
      · obtain ⟨z, hz⟩ := hbelow
        exact ⟨w.relativePath ++ '/' :: z, by rw [← hz]; simp [Workdir.rootPath]⟩
    obtain ⟨z, hz⟩ := hleading
    exact asPosix_eq_self_of_append (isAbsolute_rstripSlashes habsolute hconcat hc)
      ⟨t, c, hconcat, hc⟩ hz

theorem runtime_roundTrip (h : NormalPrefix virtualPath) {path resolved : Text}
    (hresolved : w.resolvePath path = .ok resolved) (hparts : Workdir.scopeParts path ≠ [])
    (hclean : ¬ EndsInSpace (Workdir.lastPart path)) (hscheme : ¬ w.ReadsAsScheme path) :
    ∃ runtime, runtimePathForWorkdirScope virtualPath w.workdirPath path = .ok runtime ∧
      workdirScopeFromRuntimePath virtualPath w.workdirPath runtime =
        .ok ('/' :: join (Workdir.scopeParts path)) :=
  ⟨_, w.runtimePath_of_clean virtualPath hresolved hparts hclean hscheme,
    workdirScope_of_runtime habsolute h w hparts fun _ hc => isComponent_of_mem hc⟩

end WayBack

end Yuanlei
