import Yuanlei.Skill.Projection

/-!
# Revoked skills disappear from the projections

A policy change looks at the directories before it commits and takes the locks of the users that
have one.  A user without a directory can be refreshed in between: that refresh reads the skills
before the change and is not repeated after it.  A deletion does not look at the directories at all.
Both are excluded by a condition on the state in which the transaction commits.

Main results:

- `step_projectionInv`: a step that meets the condition keeps it.
- `revoked_skill_not_projected`: after a run of such steps, no directory has a revoked
  skill once the operations on it have returned.
-/

namespace Yuanlei.SkillService

open Permission

variable {F : Type} (conv : Conversions F) (users : Table String Account)

/-! ## The condition -/

/-- The operator may delete the skill. -/
def mayDelete (t : SkillTable F) (slug : String) (operator : User) : Bool :=
  match t.skills.get slug with
  | none => false
  | some item =>
    !isBuiltinSkill item &&
      (match userCanManageSkill conv operator item with
      | .ok manageable => manageable
      | .error _ => false)

/-- The transaction commits in a state in which it cannot leave a copy behind.  A policy change
finds the skill with the users outside its list, in a directory or in a refresh that has read it,
only where it stays granted; a deletion finds it nowhere. -/
def meets (σ : ProjectionState F) : ProjectionAction F → Bool
  | .commitChange c =>
    match σ.changes.get c with
    | none => true
    | some change =>
      match change.phase with
      | .removing uids [] =>
        (σ.projections.rows.all fun e =>
          uids.contains e.1 || !e.2.contains change.slug ||
            granted conv users (change.commit σ.table) e.1 change.slug) &&
        σ.refreshes.rows.all fun e =>
          uids.contains e.2.uid || !e.2.phase.snapshot.contains change.slug ||
            granted conv users (change.commit σ.table) e.2.uid change.slug
      | _ => true
  | .deleteSkill slug operator =>
    rowLocked σ slug || !mayDelete conv σ.table slug operator ||
      ((σ.projections.rows.all fun e => !e.2.contains slug) &&
        σ.refreshes.rows.all fun e => !e.2.phase.snapshot.contains slug)
  | _ => true

/-! ## Access -/

theorem mem_filterAccessible {user : User} {requireEnabled : Bool}
    {items accessible : List (String × Skill F)}
    (h : filterAccessible conv user requireEnabled items = .ok accessible)
    {item : String × Skill F} (hitem : item ∈ accessible) :
    item ∈ items ∧ userCanAccessSkill conv user item.2 requireEnabled = .ok true := by
  induction items generalizing accessible with
  | nil =>
    simp only [filterAccessible, Except.ok.injEq] at h
    simp [← h] at hitem
  | cons first items ih =>
    unfold filterAccessible at h
    obtain ⟨b, hb, h⟩ := Exceptions.bind_eq_ok.mp h
    obtain ⟨rest, hrest, h⟩ := Exceptions.bind_eq_ok.mp h
    simp only [Except.ok.injEq] at h
    subst h
    cases b with
    | false =>
      obtain ⟨hmem, haccess⟩ := ih hrest hitem
      exact ⟨List.mem_cons_of_mem first hmem, haccess⟩
    | true =>
      rcases List.mem_cons.mp hitem with heq | hmem
      · rw [heq]
        exact ⟨List.mem_cons_self, hb⟩
      · obtain ⟨hmem', haccess⟩ := ih hrest hmem
        exact ⟨List.mem_cons_of_mem first hmem', haccess⟩

variable {t : SkillTable F} {slug : String}

theorem granted_of_mem_accessibleSlugs {uid : String} {slugs : List String}
    (h : accessibleSlugs conv users t uid = .ok slugs) (hslug : slug ∈ slugs) :
    granted conv users t uid slug := by
  unfold accessibleSlugs at h
  cases haccount : users.get uid with
  | none =>
    simp only [haccount, Except.ok.injEq] at h
    simp [← h] at hslug
  | some account =>
    simp only [haccount] at h
    by_cases hdeleted : account.isDeleted
    · simp only [hdeleted, if_true, Except.ok.injEq] at h
      simp [← h] at hslug
    · rw [if_neg hdeleted] at h
      cases hlist : listAccessibleSharedSkills conv t account.user true with
      | error e => simp [hlist, Functor.map, Except.map] at h
      | ok items =>
        simp only [hlist, Functor.map, Except.map, Except.ok.injEq] at h
        subst h
        obtain ⟨item, hitem, rfl⟩ := List.mem_map.mp hslug
        obtain ⟨hmem, haccess⟩ := mem_filterAccessible conv hlist hitem
        have hrow : t.skills.get item.1 = some item.2 := by
          refine (t.skills.mem_rows_iff item.1 item.2).mp ?_
          exact (by simpa [listEnabled] using hmem : item ∈ t.skills.rows ∧ _).1
        simp [granted, haccount, hrow, haccess, hdeleted]

/-- Access depends on the row of the skill alone. -/
theorem granted_congr {t' : SkillTable F} (h : t'.skills.get slug = t.skills.get slug)
    (uid : String) :
    granted conv users t' uid slug = granted conv users t uid slug := by
  simp only [granted, h]

variable {change : PolicyChange}

theorem granted_commit_of_ne (h : slug ≠ change.slug) (uid : String) :
    granted conv users (change.commit t) uid slug = granted conv users t uid slug := by
  refine granted_congr conv users ?_ uid
  simp [PolicyChange.commit, SkillTable.modify, h]

/-! ## The parts of a state -/

namespace ProjectionState

@[simp]
theorem entries_setRefresh (σ : ProjectionState F) (p : Nat) (r : Refresh) (uid : String) :
    (σ.setRefresh p r).entries uid = σ.entries uid :=
  rfl

theorem entries_setEntries (σ : ProjectionState F) (uid uid' : String) (slugs : List String) :
    (σ.setEntries uid slugs).entries uid' = if uid' = uid then slugs else σ.entries uid' := by
  simp only [entries, setEntries, Table.get_upsert]
  split <;> rfl

theorem lockFree_iff (σ : ProjectionState F) (uid : String) :
    σ.lockFree uid ↔ (∀ p r, σ.refreshes.get p = some r → r.uid = uid → r.phase = .waiting) ∧
        ∀ c change, σ.changes.get c = some change → uid ∉ change.phase.locked := by
  simp only [lockFree, Bool.and_eq_true, List.all_eq_true, Prod.forall, Table.mem_rows_iff,
    Bool.or_eq_true, bne_iff_ne, beq_iff_eq, Bool.not_eq_true', List.contains_eq_mem,
    decide_eq_false_iff_not]
  refine and_congr_left fun _ => forall₃_congr fun p r _ => ?_
  rw [or_iff_not_imp_left, not_not]

/-- An entry lies in a row of the directories. -/
theorem mem_entries {σ : ProjectionState F} {uid slug : String} (h : slug ∈ σ.entries uid) :
    ∃ slugs, (uid, slugs) ∈ σ.projections.rows ∧ slug ∈ slugs := by
  cases hget : σ.projections.get uid with
  | none => simp [entries, hget] at h
  | some slugs =>
    refine ⟨slugs, (σ.projections.mem_rows_iff uid slugs).mpr hget, ?_⟩
    simpa [entries, hget] using h

end ProjectionState

/-! ## The invariant -/

/-- Refreshes exclude each other and the changes that hold their locks; what they are about to
write, and what they have written, is granted; an entry that is not granted belongs to a change
that has still to refresh the user. -/
structure ProjectionInv (σ : ProjectionState F) : Prop where
  refresh_excl : ∀ p p' r r', σ.refreshes.get p = some r → σ.refreshes.get p' = some r' →
    r.phase ≠ .waiting → r'.phase ≠ .waiting → r.uid = r'.uid → p = p'
  change_excl : ∀ p r c change, σ.refreshes.get p = some r → σ.changes.get c = some change →
    r.phase ≠ .waiting → r.uid ∉ change.phase.locked
  snapshot : ∀ p r, σ.refreshes.get p = some r → ∀ slug ∈ r.phase.snapshot,
    granted conv users σ.table r.uid slug
  written : ∀ p r, σ.refreshes.get p = some r → r.phase = .written →
    ∀ slug ∈ σ.entries r.uid, granted conv users σ.table r.uid slug
  current : ∀ c change uid remaining p, σ.changes.get c = some change →
    change.phase = .refreshing (uid :: remaining) (some p) →
      ∃ r, σ.refreshes.get p = some r ∧ r.uid = uid
  entry : ∀ uid, ∀ slug ∈ σ.entries uid, granted conv users σ.table uid slug ∨
    ∃ c change, σ.changes.get c = some change ∧ change.slug = slug ∧ uid ∈ change.phase.debt

theorem projectionInv_initial (t : SkillTable F) :
    ProjectionInv conv users (ProjectionState.initial t) where
  refresh_excl := by simp [ProjectionState.initial]
  change_excl := by simp [ProjectionState.initial]
  snapshot := by simp [ProjectionState.initial]
  written := by simp [ProjectionState.initial]
  current := by simp [ProjectionState.initial]
  entry := by simp [ProjectionState.initial, ProjectionState.entries]

variable {conv users} {σ : ProjectionState F}

/-! ### Refreshes -/

variable {p : Nat}

section

variable (h : ProjectionInv conv users σ)
include h

variable {r : Refresh}

/-- The row of a refresh is written: it waits for its lock or holds it alone, and what it has read or
written is granted. -/
theorem ProjectionInv.setRefresh (hsame : ∀ s, σ.refreshes.get p = some s → s.uid = r.uid)
    (hlock : r.phase ≠ .waiting →
      (∀ q s, q ≠ p → σ.refreshes.get q = some s → s.phase ≠ .waiting → s.uid ≠ r.uid) ∧
        ∀ c change, σ.changes.get c = some change → r.uid ∉ change.phase.locked)
    (hsnapshot : ∀ slug ∈ r.phase.snapshot, granted conv users σ.table r.uid slug)
    (hwritten : r.phase = .written → ∀ slug ∈ σ.entries r.uid,
      granted conv users σ.table r.uid slug) :
    ProjectionInv conv users (σ.setRefresh p r) := by
  constructor
  case refresh_excl =>
    intro q q' s s' hs hs' hphase hphase' huid
    simp only [ProjectionState.setRefresh, Table.get_upsert] at hs hs'
    split at hs
    · next hq =>
        cases hs
        split at hs'
        · next hq' => rw [hq, hq']
        · next hq' => exact absurd huid.symm ((hlock hphase).1 q' s' hq' hs' hphase')
    · next hq =>
        split at hs'
        · cases hs'
          exact absurd huid ((hlock hphase').1 q s hq hs hphase)
        · exact h.refresh_excl q q' s s' hs hs' hphase hphase' huid
  case change_excl =>
    intro q s c change hs hchange hphase
    simp only [ProjectionState.setRefresh, Table.get_upsert] at hs
    split at hs
    · cases hs
      exact (hlock hphase).2 c change hchange
    · exact h.change_excl q s c change hs hchange hphase
  case snapshot =>
    intro q s hs slug hslug
    simp only [ProjectionState.setRefresh, Table.get_upsert] at hs
    split at hs
    · cases hs
      exact hsnapshot slug hslug
    · exact h.snapshot q s hs slug hslug
  case written =>
    intro q s hs hphase
    simp only [ProjectionState.setRefresh, Table.get_upsert] at hs
    split at hs
    · cases hs
      exact hwritten hphase
    · exact h.written q s hs hphase
  case current =>
    intro c change uid remaining q hchange hphase
    obtain ⟨s, hs, huid⟩ := h.current c change uid remaining q hchange hphase
    by_cases hq : q = p
    · subst hq
      exact ⟨r, by simp [ProjectionState.setRefresh, Table.get_upsert], (hsame s hs).symm.trans huid⟩
    · exact ⟨s, by simp [ProjectionState.setRefresh, Table.get_upsert, hq, hs], huid⟩
  case entry => exact h.entry

theorem ProjectionInv.startRefresh (hp : σ.refreshes.get p = none) (uid : String) :
    ProjectionInv conv users (σ.setRefresh p { uid, phase := .waiting }) :=
  h.setRefresh (by simp [hp]) (fun hphase => absurd rfl hphase) (by simp [RefreshPhase.snapshot])
    nofun

theorem ProjectionInv.advanceRefresh (hr : σ.refreshes.get p = some r) {phase : RefreshPhase}
    (hlock : r.phase ≠ .waiting ∨ σ.lockFree r.uid)
    (hsnapshot : ∀ slug ∈ phase.snapshot, granted conv users σ.table r.uid slug)
    (hwritten : phase = .written → ∀ slug ∈ σ.entries r.uid,
      granted conv users σ.table r.uid slug) :
    ProjectionInv conv users (σ.setRefresh p { r with phase }) := by
  refine h.setRefresh ?_ (fun _ => ⟨?_, ?_⟩) hsnapshot hwritten
  · intro s hs
    rw [hr] at hs
    cases hs
    rfl
  · intro q r' hne hr' hphase' huid
    rcases hlock with hphase | hfree
    · exact hne (h.refresh_excl q p r' r hr' hr hphase' hphase huid)
    · exact hphase' (((σ.lockFree_iff r.uid).mp hfree).1 q r' hr' huid)
  · intro c change hchange
    rcases hlock with hphase | hfree
    · exact h.change_excl p r c change hr hchange hphase
    · exact ((σ.lockFree_iff r.uid).mp hfree).2 c change hchange

/-- The holder of a user's lock rewrites the directory with granted skills. -/
theorem ProjectionInv.setEntries {uid : String} {slugs : List String}
    (hslugs : ∀ slug ∈ slugs, slug ∈ σ.entries uid ∨ granted conv users σ.table uid slug) :
    ProjectionInv conv users (σ.setEntries uid slugs) where
  refresh_excl := h.refresh_excl
  change_excl := h.change_excl
  snapshot := h.snapshot
  written := by
    intro p r hr hphase slug hslug
    rw [ProjectionState.entries_setEntries] at hslug
    split at hslug
    · next huid =>
        rcases hslugs slug hslug with hold | hgranted
        · exact h.written p r hr hphase slug (huid ▸ hold)
        · exact huid ▸ hgranted
    · exact h.written p r hr hphase slug hslug
  current := h.current
  entry := by
    intro uid' slug hslug
    rw [ProjectionState.entries_setEntries] at hslug
    split at hslug
    · next huid =>
        subst huid
        rcases hslugs slug hslug with hold | hgranted
        · exact h.entry uid' slug hold
        · exact .inl hgranted
    · exact h.entry uid' slug hslug

end

theorem ChangePhase.settle_cases (p : Nat) (written : Bool) (phase : ChangePhase) :
    phase.settle p written = phase ∨
      ∃ remaining, phase = .refreshing remaining (some p) ∧
        phase.settle p written = if written then .refreshing remaining.tail none
          else .raised remaining := by
  unfold ChangePhase.settle
  split
  · next remaining q =>
      by_cases hpq : p = q
      · subst hpq
        exact .inr ⟨remaining, rfl, by simp⟩
      · exact .inl (by simp [hpq])
  · exact .inl rfl

theorem ChangePhase.locked_settle (p : Nat) (written : Bool) (phase : ChangePhase) :
    (phase.settle p written).locked = phase.locked := by
  rcases settle_cases p written phase with hsame | ⟨remaining, hphase, hsettled⟩
  · rw [hsame]
  · rw [hsettled, hphase]
    cases written <;> rfl

variable {r : Refresh}

theorem ProjectionInv.endRefresh (h : ProjectionInv conv users σ) (hr : σ.refreshes.get p = some r) :
    ProjectionInv conv users (SkillService.endRefresh σ p r) := by
  have hrefresh : ∀ q s, (SkillService.endRefresh σ p r).refreshes.get q = some s →
      q ≠ p ∧ σ.refreshes.get q = some s := by
    intro q s hs
    simp only [SkillService.endRefresh, Table.get_erase] at hs
    split at hs
    · cases hs
    · next hne => exact ⟨hne, hs⟩
  have hchange : ∀ c change', (SkillService.endRefresh σ p r).changes.get c = some change' →
      ∃ change, σ.changes.get c = some change ∧ change'.slug = change.slug ∧
        change'.phase = change.phase.settle p (r.phase == .written) := by
    intro c change' hchange'
    simp only [SkillService.endRefresh, Table.get_mapRows, Option.map_eq_some_iff] at hchange'
    obtain ⟨change, hchange, rfl⟩ := hchange'
    exact ⟨change, hchange, rfl, rfl⟩
  constructor
  case refresh_excl =>
    intro q q' s s' hs hs'
    exact h.refresh_excl q q' s s' (hrefresh q s hs).2 (hrefresh q' s' hs').2
  case change_excl =>
    intro q s c change' hs hchange' hphase
    obtain ⟨change, hget, -, hsettled⟩ := hchange c change' hchange'
    rw [hsettled, ChangePhase.locked_settle]
    exact h.change_excl q s c change (hrefresh q s hs).2 hget hphase
  case snapshot =>
    intro q s hs
    exact h.snapshot q s (hrefresh q s hs).2
  case written =>
    intro q s hs
    exact h.written q s (hrefresh q s hs).2
  case current =>
    intro c change' uid remaining q hchange' hphase
    obtain ⟨change, hget, -, hsettled⟩ := hchange c change' hchange'
    rcases ChangePhase.settle_cases p (r.phase == .written) change.phase with
      hsame | ⟨remaining', -, hafter⟩
    · rw [hsettled, hsame] at hphase
      obtain ⟨s, hs, huid⟩ := h.current c change uid remaining q hget hphase
      refine ⟨s, ?_, huid⟩
      have hne : q ≠ p := by
        -- a change that waits for this refresh is settled
        intro heq
        rw [hphase, heq] at hsame
        simp only [ChangePhase.settle, if_true] at hsame
        split at hsame <;> cases hsame
      simp [SkillService.endRefresh, Table.get_erase, hne, hs]
    · rw [hsettled, hafter] at hphase
      split at hphase
      · simp at hphase
      · simp at hphase
  case entry =>
    intro uid slug hslug
    have hentries : slug ∈ σ.entries uid := hslug
    rcases h.entry uid slug hentries with hgranted | ⟨c, change, hget, hslug', hdebt⟩
    · exact .inl hgranted
    · have hget' : (SkillService.endRefresh σ p r).changes.get c = some
          { change with phase := change.phase.settle p (r.phase == .written) } := by
        simp [SkillService.endRefresh, hget]
      rcases ChangePhase.settle_cases p (r.phase == .written) change.phase with
        hsame | ⟨remaining, hphase, hafter⟩
      · refine .inr ⟨c, _, hget', hslug', ?_⟩
        simpa only [hsame] using hdebt
      · by_cases hwritten : r.phase = .written
        · rw [hphase] at hdebt
          cases remaining with
          | nil => simp [ChangePhase.debt] at hdebt
          | cons first rest =>
            obtain ⟨s, hs, hfirst⟩ := h.current c change first rest p hget hphase
            rw [hr] at hs
            cases hs
            rcases List.mem_cons.mp hdebt with heq | hrest
            · -- the directory of this user has just been written
              refine .inl ?_
              rw [heq, ← hfirst] at hentries ⊢
              exact h.written p _ hr hwritten slug hentries
            · refine .inr ⟨c, _, hget', hslug', ?_⟩
              have hdone : (r.phase == .written) = true := by simpa using hwritten
              rw [hdone] at hafter ⊢
              simp only [hafter]
              exact hrest
        · refine .inr ⟨c, _, hget', hslug', ?_⟩
          have hfalse : (r.phase == .written) = false := by simpa using hwritten
          rw [hphase] at hdebt
          rw [hfalse] at hafter ⊢
          simp only [hafter]
          exact hdebt

/-! ### Changes -/

variable {c : Nat}

section

variable (h : ProjectionInv conv users σ)
include h

theorem ProjectionInv.setChange (hdebt : ∀ old, σ.changes.get c = some old → ∀ uid ∈ old.phase.debt,
      change.slug = old.slug ∧ uid ∈ change.phase.debt)
    (hlocked : ∀ p r, σ.refreshes.get p = some r → r.phase ≠ .waiting →
      r.uid ∉ change.phase.locked)
    (hcurrent : ∀ uid remaining p, change.phase = .refreshing (uid :: remaining) (some p) →
      ∃ r, σ.refreshes.get p = some r ∧ r.uid = uid) :
    ProjectionInv conv users (σ.setChange c change) where
  refresh_excl := h.refresh_excl
  change_excl := by
    intro p r c' change' hr hchange' hphase
    simp only [ProjectionState.setChange, Table.get_upsert] at hchange'
    split at hchange'
    · cases hchange'
      exact hlocked p r hr hphase
    · exact h.change_excl p r c' change' hr hchange' hphase
  snapshot := h.snapshot
  written := h.written
  current := by
    intro c' change' uid remaining p hchange' hphase
    simp only [ProjectionState.setChange, Table.get_upsert] at hchange'
    split at hchange'
    · cases hchange'
      exact hcurrent uid remaining p hphase
    · exact h.current c' change' uid remaining p hchange' hphase
  entry := by
    intro uid slug hslug
    rcases h.entry uid slug hslug with hgranted | ⟨c', change', hget, hslug', hmem⟩
    · exact .inl hgranted
    · by_cases hc : c' = c
      · subst hc
        obtain ⟨hsame, hkept⟩ := hdebt change' hget uid hmem
        exact .inr ⟨c', change, by simp [ProjectionState.setChange, Table.get_upsert],
          hsame.trans hslug', hkept⟩
      · exact .inr ⟨c', change', by simp [ProjectionState.setChange, Table.get_upsert, hc, hget],
          hslug', hmem⟩

theorem ProjectionInv.advanceChange
    (hdebt : ∀ old, σ.changes.get c = some old → old.phase.debt = [])
    (hlocked : ∀ p r, σ.refreshes.get p = some r → r.phase ≠ .waiting →
      r.uid ∉ change.phase.locked)
    (hcurrent : ∀ uid remaining p, change.phase ≠ .refreshing (uid :: remaining) (some p)) :
    ProjectionInv conv users (σ.setChange c change) := by
  refine h.setChange ?_ hlocked fun uid remaining p hphase => absurd hphase (hcurrent uid remaining p)
  intro old hold uid hmem
  simp [hdebt old hold] at hmem

theorem ProjectionInv.eraseChange (hdebt : ∀ old, σ.changes.get c = some old → old.phase.debt = []) :
    ProjectionInv conv users { σ with changes := σ.changes.erase c } := by
  have hkept : ∀ c' change', (σ.changes.erase c).get c' = some change' →
      σ.changes.get c' = some change' := by
    intro c' change' hget
    rw [Table.get_erase] at hget
    split at hget
    · cases hget
    · exact hget
  constructor
  case refresh_excl => exact h.refresh_excl
  case change_excl =>
    intro p r c' change' hr hget
    exact h.change_excl p r c' change' hr (hkept c' change' hget)
  case snapshot => exact h.snapshot
  case written => exact h.written
  case current =>
    intro c' change' uid remaining p hget
    exact h.current c' change' uid remaining p (hkept c' change' hget)
  case entry =>
    intro uid slug hslug
    rcases h.entry uid slug hslug with hgranted | ⟨c', change', hget, hslug', hmem⟩
    · exact .inl hgranted
    · refine .inr ⟨c', change', ?_, hslug', hmem⟩
      have hne : c' ≠ c := by
        intro heq
        rw [heq] at hget
        simp [hdebt change' hget] at hmem
      simp [Table.get_erase, hne, hget]

theorem ProjectionInv.commitChange (hchange : σ.changes.get c = some change) {uids : List String}
    (hphase : change.phase = .removing uids [])
    (hprojections : ∀ uid, uid ∉ uids → change.slug ∈ σ.entries uid →
      granted conv users (change.commit σ.table) uid change.slug)
    (hrefreshes : ∀ p r, σ.refreshes.get p = some r → r.uid ∉ uids →
      change.slug ∈ r.phase.snapshot →
        granted conv users (change.commit σ.table) r.uid change.slug) :
    ProjectionInv conv users
      { σ.setChange c { change with phase := .refreshing uids none } with
        table := change.commit σ.table } := by
  -- the locks of the listed users are held by this change
  have hexcl : ∀ p r, σ.refreshes.get p = some r → r.phase ≠ .waiting → r.uid ∉ uids := by
    intro p r hr hwaiting
    have hlocked := h.change_excl p r c change hr hchange hwaiting
    rwa [hphase] at hlocked
  constructor
  case refresh_excl => exact h.refresh_excl
  case change_excl =>
    intro p r c' change' hr hchange' hwaiting
    simp only [ProjectionState.setChange, Table.get_upsert] at hchange'
    split at hchange'
    · cases hchange'
      simp [ChangePhase.locked]
    · exact h.change_excl p r c' change' hr hchange' hwaiting
  case snapshot =>
    intro p r hr slug hslug
    by_cases hslug' : slug = change.slug
    · rw [hslug'] at hslug ⊢
      refine hrefreshes p r hr (hexcl p r hr ?_) hslug
      intro hwaiting
      rw [hwaiting] at hslug
      simp [RefreshPhase.snapshot] at hslug
    · rw [granted_commit_of_ne conv users hslug']
      exact h.snapshot p r hr slug hslug
  case written =>
    intro p r hr hwritten slug hslug
    by_cases hslug' : slug = change.slug
    · rw [hslug'] at hslug ⊢
      refine hprojections r.uid (hexcl p r hr ?_) hslug
      simp [hwritten]
    · rw [granted_commit_of_ne conv users hslug']
      exact h.written p r hr hwritten slug hslug
  case current =>
    intro c' change' uid remaining p hchange' hphase'
    simp only [ProjectionState.setChange, Table.get_upsert] at hchange'
    split at hchange'
    · cases hchange'
      cases hphase'
    · exact h.current c' change' uid remaining p hchange' hphase'
  case entry =>
    intro uid slug hslug
    by_cases hslug' : slug = change.slug
    · rw [hslug'] at hslug ⊢
      by_cases huid : uid ∈ uids
      · refine .inr ⟨c, { change with phase := .refreshing uids none }, ?_, rfl, huid⟩
        simp [ProjectionState.setChange, Table.get_upsert]
      · exact .inl (hprojections uid huid hslug)
    · rcases h.entry uid slug hslug with hgranted | ⟨c', change', hget, hchangeSlug, hmem⟩
      · refine .inl ?_
        rw [granted_commit_of_ne conv users hslug']
        exact hgranted
      · refine .inr ⟨c', change', ?_, hchangeSlug, hmem⟩
        have hne : c' ≠ c := by
          intro heq
          rw [heq, hchange] at hget
          cases hget
          exact hslug' hchangeSlug.symm
        simp [ProjectionState.setChange, Table.get_upsert, hne, hget]

theorem ProjectionInv.refreshChange (hchange : σ.changes.get c = some change) {uid : String}
    {remaining : List String} (hphase : change.phase = .refreshing (uid :: remaining) none)
    (hp : σ.refreshes.get p = none) :
    ProjectionInv conv users ((σ.setRefresh p { uid, phase := .waiting }).setChange c
      { change with phase := .refreshing (uid :: remaining) (some p) }) := by
  refine (h.startRefresh hp uid).setChange ?_ (by simp [ChangePhase.locked]) ?_
  · intro old hold uid' hmem
    have hget : σ.changes.get c = some old := hold
    rw [hchange] at hget
    cases hget
    rw [hphase] at hmem
    exact ⟨rfl, hmem⟩
  · intro uid' remaining' q hphase'
    cases hphase'
    exact ⟨{ uid, phase := .waiting }, by simp [ProjectionState.setRefresh, Table.get_upsert], rfl⟩

end

/-! ### Deletions -/

variable {operator : User}

theorem deleteSkill_of_not_mayDelete (h : mayDelete conv t slug operator = false) :
    committed t (deleteSkill conv t slug operator) = t := by
  unfold mayDelete at h
  unfold deleteSkill
  cases hget : t.skills.get slug with
  | none => rfl
  | some item =>
    simp only [hget] at h
    cases hmanage : userCanManageSkill conv operator item with
    | error e => simp [hmanage, bind, Except.bind, committed]
    | ok manageable =>
      cases manageable with
      | false => simp [hmanage, bind, Except.bind, committed]
      | true =>
        simp only [hmanage, Bool.and_true, Bool.not_eq_false'] at h
        simp [hmanage, ensureNonBuiltin, h, bind, Except.bind, committed]

theorem get_deleteSkill_of_ne {slug' : String} (operator : User) (h : slug' ≠ slug) :
    (committed t (deleteSkill conv t slug operator)).skills.get slug' = t.skills.get slug' := by
  cases hdelete : deleteSkill conv t slug operator with
  | error e => rfl
  | ok t' =>
    unfold deleteSkill at hdelete
    split at hdelete
    · cases hdelete
    · obtain ⟨manageable, -, hdelete⟩ := Exceptions.bind_eq_ok.mp hdelete
      split at hdelete
      · obtain ⟨u, -, hdelete⟩ := Exceptions.bind_eq_ok.mp hdelete
        cases hdelete
        simp [committed, Table.get_erase, h]
      · cases hdelete

theorem ProjectionInv.deleteSkill (h : ProjectionInv conv users σ)
    (hprojections : ∀ uid, slug ∉ σ.entries uid)
    (hrefreshes : ∀ p r, σ.refreshes.get p = some r → slug ∉ r.phase.snapshot) :
    ProjectionInv conv users
      { σ with table := committed σ.table (SkillService.deleteSkill conv σ.table slug operator) } := by
  have hgranted : ∀ uid slug', slug' ≠ slug →
      granted conv users (committed σ.table (SkillService.deleteSkill conv σ.table slug operator))
        uid slug' = granted conv users σ.table uid slug' := by
    intro uid slug' hne
    exact granted_congr conv users (get_deleteSkill_of_ne operator hne) uid
  constructor
  case refresh_excl => exact h.refresh_excl
  case change_excl => exact h.change_excl
  case snapshot =>
    intro p r hr slug' hslug'
    have hne : slug' ≠ slug := fun heq => hrefreshes p r hr (heq ▸ hslug')
    rw [hgranted r.uid slug' hne]
    exact h.snapshot p r hr slug' hslug'
  case written =>
    intro p r hr hwritten slug' hslug'
    have hne : slug' ≠ slug := fun heq => hprojections r.uid (heq ▸ hslug')
    rw [hgranted r.uid slug' hne]
    exact h.written p r hr hwritten slug' hslug'
  case current => exact h.current
  case entry =>
    intro uid slug' hslug'
    have hne : slug' ≠ slug := fun heq => hprojections uid (heq ▸ hslug')
    rw [hgranted uid slug' hne]
    exact h.entry uid slug' hslug'

/-! ### All steps -/

theorem refreshStep_projectionInv (h : ProjectionInv conv users σ) (hr : σ.refreshes.get p = some r)
    (a : ProjectionAction F) :
    ProjectionInv conv users (refreshStep conv users σ p r a) := by
  unfold refreshStep
  split
  · -- the lock is taken
    split
    · next hlock =>
        exact h.advanceRefresh hr (.inr hlock.2) (by simp [RefreshPhase.snapshot]) (by simp)
    · exact h
  · -- the skills are read
    split
    · next hlocked =>
        split
        · next slugs hslugs =>
            refine h.advanceRefresh hr (.inl (by simp [hlocked])) ?_ (by simp)
            intro slug hslug
            exact granted_of_mem_accessibleSlugs conv users hslugs hslug
        · exact h.endRefresh hr
    · exact h
  · -- the directory is made
    split
    · next slugs hread =>
        refine (h.setEntries fun slug hslug => .inl hslug).advanceRefresh hr
          (.inl (by simp [hread])) ?_ (by simp)
        intro slug hslug
        refine h.snapshot p r hr slug ?_
        simpa [hread, RefreshPhase.snapshot] using hslug
    · exact h
  · -- the directory is written
    next kept =>
      split
      · next slugs hrooted =>
          have hgranted : ∀ slug ∈ slugs.filter fun slug =>
              isValidSkillSlug slug && kept.contains slug,
              granted conv users σ.table r.uid slug := by
            intro slug hslug
            refine h.snapshot p r hr slug ?_
            simpa [hrooted, RefreshPhase.snapshot] using (List.mem_filter.mp hslug).1
          refine (h.setEntries fun slug hslug => .inr (hgranted slug hslug)).advanceRefresh hr
            (.inl (by simp [hrooted])) (by simp [RefreshPhase.snapshot]) ?_
          intro _ slug hslug
          rw [ProjectionState.entries_setEntries, if_pos rfl] at hslug
          exact hgranted slug hslug
      · exact h
  · exact h.endRefresh hr
  · exact h

theorem debt_eq_nil (hchange : σ.changes.get c = some change) (hdebt : change.phase.debt = []) :
    ∀ old, σ.changes.get c = some old → old.phase.debt = [] := by
  intro old hold
  rw [hchange] at hold
  cases hold
  exact hdebt

theorem changeStep_projectionInv (h : ProjectionInv conv users σ)
    (hchange : σ.changes.get c = some change) (a : ProjectionAction F)
    (hmeets : ∀ c', a = .commitChange c' → meets conv users σ (.commitChange c)) :
    ProjectionInv conv users (changeStep users σ c change a) := by
  unfold changeStep
  split
  · -- the row is written
    split
    · next hchecked =>
        refine h.advanceChange (debt_eq_nil hchange (by simp [hchecked.1, ChangePhase.debt])) ?_
          (by simp)
        simp [ChangePhase.locked]
    · exact h
  · -- the users are listed
    split
    · next hflushed =>
        refine h.advanceChange (debt_eq_nil hchange (by simp [hflushed, ChangePhase.debt])) ?_
          (by simp)
        simp [ChangePhase.locked]
    · exact h
  · -- a lock is taken
    split
    · next locked hlocking =>
        refine h.advanceChange (debt_eq_nil hchange (by simp [hlocking, ChangePhase.debt])) ?_
          (by simp)
        intro p r hr hwaiting
        simpa [hlocking, ChangePhase.locked] using h.change_excl p r c change hr hchange hwaiting
    · next locked uid remaining hlocking =>
        split
        · next hfree =>
            refine h.advanceChange (debt_eq_nil hchange (by simp [hlocking, ChangePhase.debt])) ?_
              (by simp)
            intro p r hr hwaiting
            have hother := h.change_excl p r c change hr hchange hwaiting
            have hne : r.uid ≠ uid := fun huid =>
              hwaiting (((σ.lockFree_iff uid).mp hfree).1 p r hr huid)
            simpa [hlocking, ChangePhase.locked, hne] using hother
        · exact h
    · exact h
  · -- the skill is removed from a directory
    split
    · next uids uid remaining hremoving =>
        have hentries : ProjectionInv conv users (σ.setEntries uid
            ((σ.entries uid).filter fun slug => slug ≠ change.givenSlug)) :=
          h.setEntries fun slug hslug => .inl (List.mem_filter.mp hslug).1
        have hdebt : change.phase.debt = [] := by simp [hremoving, ChangePhase.debt]
        refine hentries.advanceChange (fun old hold => debt_eq_nil hchange hdebt old hold) ?_
          (by simp)
        intro p r hr hwaiting
        simpa [hremoving, ChangePhase.locked] using h.change_excl p r c change hr hchange hwaiting
    · exact h
  · -- the commit
    next c' =>
      split
      · next uids hremoving =>
          have hcondition := hmeets c' rfl
          simp only [meets, hchange, hremoving, Bool.and_eq_true, List.all_eq_true,
            Bool.or_eq_true, Bool.not_eq_true', Prod.forall] at hcondition
          refine h.commitChange hchange hremoving ?_ ?_
          · intro uid huid hslug
            obtain ⟨slugs, hrow, hmem⟩ := ProjectionState.mem_entries hslug
            have hcase := hcondition.1 uid slugs hrow
            simpa [huid, hmem] using hcase
          · intro p r hr huid hslug
            have hcase := hcondition.2 p r ((σ.refreshes.mem_rows_iff p r).mpr hr)
            simpa [huid, hslug] using hcase
      · exact h
  · -- a refresh is started
    split
    · next uid remaining hrefreshing =>
        split
        · next hnone => exact h.refreshChange hchange hrefreshing (by simpa using hnone)
        · exact h
    · exact h
  · -- the change returns
    split
    · next current hrefreshing =>
        exact h.eraseChange (debt_eq_nil hchange (by simp [hrefreshing, ChangePhase.debt]))
    · exact h
  · -- the change is rolled back
    split
    · exact h
    · exact h
    · next hrefreshing hraised =>
        refine h.eraseChange (debt_eq_nil hchange ?_)
        cases hphase : change.phase with
        | refreshing remaining current => exact absurd hphase (hrefreshing remaining current)
        | raised remaining => exact absurd hphase (hraised remaining)
        | checked => rfl
        | flushed => rfl
        | locking locked remaining => rfl
        | removing uids remaining => rfl
  · exact h

theorem beginChange_projectionInv (h : ProjectionInv conv users σ) (c : Nat)
    {checked : Except ConfigError PolicyChange}
    (hchecked : ∀ change, checked = .ok change → change.phase = .checked) :
    ProjectionInv conv users (beginChange σ c checked) := by
  unfold beginChange
  split
  · next change =>
      have hphase := hchecked change rfl
      split
      · next hnone =>
          refine h.advanceChange ?_ ?_ ?_
          · intro old hold
            simp [hold] at hnone
          · simp [hphase, ChangePhase.locked]
          · simp [hphase]
      · exact h
  · exact h

variable {now : Nat}

theorem checkShareConfig_phase {shareConfig : Json F}
    (h : checkShareConfig conv t slug shareConfig operator now = .ok change) :
    change.phase = .checked := by
  unfold checkShareConfig at h
  obtain ⟨item, -, h⟩ := Exceptions.bind_eq_ok.mp h
  obtain ⟨u, -, h⟩ := Exceptions.bind_eq_ok.mp h
  obtain ⟨normalized, -, h⟩ := Exceptions.bind_eq_ok.mp h
  cases h
  rfl

theorem checkEnabled_phase {enabled : Bool}
    (h : checkEnabled conv t slug enabled operator now = .ok change) :
    change.phase = .checked := by
  unfold checkEnabled at h
  obtain ⟨item, -, h⟩ := Exceptions.bind_eq_ok.mp h
  cases h
  rfl

theorem refresh_projectionInv (h : ProjectionInv conv users σ) (p : Nat) (a : ProjectionAction F) :
    ProjectionInv conv users
      (match σ.refreshes.get p with
      | none => σ
      | some r => refreshStep conv users σ p r a) := by
  cases hr : σ.refreshes.get p with
  | none => exact h
  | some r => exact refreshStep_projectionInv h hr a

theorem change_projectionInv (h : ProjectionInv conv users σ) (c : Nat) (a : ProjectionAction F)
    (hmeets : ∀ c', a = .commitChange c' → meets conv users σ (.commitChange c)) :
    ProjectionInv conv users
      (match σ.changes.get c with
      | none => σ
      | some change => changeStep users σ c change a) := by
  cases hchange : σ.changes.get c with
  | none => exact h
  | some change => exact changeStep_projectionInv h hchange a hmeets

theorem step_projectionInv (σ : ProjectionState F) (a : ProjectionAction F)
    (hmeets : meets conv users σ a) (h : ProjectionInv conv users σ) :
    ProjectionInv conv users (projectionStep conv users σ a) := by
  cases a with
  | startRefresh p uid =>
    simp only [projectionStep]
    split
    · next hnone => exact h.startRefresh (by simpa using hnone) uid
    · exact h
  | lockRefresh p => exact refresh_projectionInv h p _
  | readRefresh p => exact refresh_projectionInv h p _
  | rootRefresh p => exact refresh_projectionInv h p _
  | writeRefresh p kept => exact refresh_projectionInv h p _
  | endRefresh p => exact refresh_projectionInv h p _
  | beginShareConfig c slug shareConfig operator now =>
    simp only [projectionStep]
    exact beginChange_projectionInv h c fun change hchange => checkShareConfig_phase hchange
  | beginEnabled c slug enabled operator now =>
    simp only [projectionStep]
    exact beginChange_projectionInv h c fun change hchange => checkEnabled_phase hchange
  | flushChange c => exact change_projectionInv h c _ (by simp)
  | listChange c => exact change_projectionInv h c _ (by simp)
  | lockChange c => exact change_projectionInv h c _ (by simp)
  | removeChange c => exact change_projectionInv h c _ (by simp)
  | commitChange c => exact change_projectionInv h c _ fun _ _ => hmeets
  | refreshChange c p => exact change_projectionInv h c _ (by simp)
  | returnChange c => exact change_projectionInv h c _ (by simp)
  | abortChange c => exact change_projectionInv h c _ (by simp)
  | deleteSkill slug operator =>
    simp only [projectionStep]
    split
    · exact h
    · next hrow =>
        cases hmay : mayDelete conv σ.table slug operator with
        | false =>
          rw [deleteSkill_of_not_mayDelete hmay]
          exact h
        | true =>
          simp only [meets, hrow, hmay, Bool.not_true, Bool.false_or, Bool.and_eq_true,
            List.all_eq_true, Bool.not_eq_true', Prod.forall] at hmeets
          refine h.deleteSkill ?_ ?_
          · intro uid hslug
            obtain ⟨slugs, hrow', hmem⟩ := ProjectionState.mem_entries hslug
            simpa [hmem] using hmeets.1 uid slugs hrow'
          · intro p r hr hslug
            simpa [hslug] using hmeets.2 p r ((σ.refreshes.mem_rows_iff p r).mpr hr)

variable (conv users)

/-- No operation on the skill is in flight: every policy change of it has returned. -/
def Returned (σ : ProjectionState F) (slug : String) : Prop :=
  ∀ c change, σ.changes.get c = some change → change.slug ≠ slug

/-- In every run whose commits meet the condition: once the operations on a skill have returned,
the directories have it only where it is granted, and whatever a refresh writes is granted. -/
theorem revoked_skill_not_projected (t : SkillTable F) (as : List (ProjectionAction F))
    (h : Transition.Guarded (projectionStep conv users) (fun σ a => meets conv users σ a)
      (ProjectionState.initial t) as) :
    let σ := Transition.exec (projectionStep conv users) (ProjectionState.initial t) as
    (∀ slug, Returned σ slug → ∀ uid, slug ∈ σ.entries uid →
      granted conv users σ.table uid slug) ∧
    ∀ p kept uid slug, slug ∉ σ.entries uid →
      slug ∈ (projectionStep conv users σ (.writeRefresh p kept)).entries uid →
        granted conv users σ.table uid slug := by
  intro σ
  have hinv : ProjectionInv conv users σ :=
    Transition.exec_invariant_of_guarded (projectionStep conv users) step_projectionInv
      (projectionInv_initial conv users t) h
  constructor
  · intro slug hreturned uid hslug
    rcases hinv.entry uid slug hslug with hgranted | ⟨c, change, hchange, hslug', -⟩
    · exact hgranted
    · exact absurd hslug' (hreturned c change hchange)
  · intro p kept uid slug hbefore hafter
    simp only [projectionStep] at hafter
    split at hafter
    · exact absurd hafter hbefore
    · next r hr =>
        simp only [refreshStep] at hafter
        split at hafter
        · next slugs hrooted =>
            rw [ProjectionState.entries_setRefresh, ProjectionState.entries_setEntries] at hafter
            split at hafter
            · next huid =>
                rw [huid]
                refine hinv.snapshot p r hr slug ?_
                simpa [hrooted, RefreshPhase.snapshot] using (List.mem_filter.mp hafter).1
            · exact absurd hafter hbefore
        · exact absurd hafter hbefore

/-! ## Runs with and without a leak -/

theorem returned_of_isEmpty {σ : ProjectionState F} (h : σ.changes.rows.isEmpty) (slug : String) :
    Returned σ slug := by
  intro c change hchange
  rw [← Table.mem_rows_iff, List.isEmpty_iff.mp h] at hchange
  cases hchange

def bob : User where
  uid := "bob"
  role := "user"
  departmentId := none

def carol : User where
  uid := "carol"
  role := "user"
  departmentId := none

def sampleUsers : Table String Account where
  rows := [("bob", ⟨bob, false⟩), ("carol", ⟨carol, false⟩)]
  nodupKeys := by decide

/-- A skill of carol that every user may read. -/
def sampleTable : SkillTable Empty where
  skills :=
    { rows :=
        [("reporter",
          { id := 1
            name := "reporter"
            description := "Writes reports"
            sourceType := "upload"
            toolDependencies := []
            mcpDependencies := []
            skillDependencies := []
            dirPath := "shared/reporter"
            version := none
            contentHash := none
            shareConfig := builtinPermissionConfig.dict
            enabled := true
            createdBy := some "carol"
            updatedBy := some "carol"
            updatedAt := 1 })]
      nodupKeys := by decide }
  nextId := 2

/-- The configuration that leaves the skill to its owner. -/
def ownerOnly : Json Empty :=
  let config : PermissionConfig := { readScope := some (.user ["carol"]), manageScope := none }
  config.dict

/-- The steps of a refresh that has started. -/
def refreshRun (p : Nat) : List (ProjectionAction Empty) :=
  [.lockRefresh p, .readRefresh p, .rootRefresh p, .writeRefresh p ["reporter"], .endRefresh p]

/-- The first refresh of bob runs while a change that has listed nobody has not committed yet. -/
def leakRun : List (ProjectionAction Empty) :=
  [.beginShareConfig 0 "reporter" ownerOnly carol 2, .flushChange 0, .listChange 0,
    .startRefresh 1 "bob"] ++ refreshRun 1 ++ [.lockChange 0, .commitChange 0, .returnChange 0]

/-- The skill is deleted after a refresh of bob. -/
def deletionRun : List (ProjectionAction Empty) :=
  .startRefresh 1 "bob" :: refreshRun 1 ++ [.deleteSkill "reporter" carol]

/-- All is over behind the run, and bob, who may not read the skill, has it in the directory. -/
def StaysProjected (run : List (ProjectionAction Empty)) : Prop :=
  let σ := Transition.exec (projectionStep sampleConversions sampleUsers)
    (ProjectionState.initial sampleTable) run
  Returned σ "reporter" ∧ σ.refreshes.rows = [] ∧ "reporter" ∈ σ.entries "bob" ∧
    granted sampleConversions sampleUsers σ.table "bob" "reporter" = false

/-- Both runs leave the skill in the directory of bob. -/
theorem revoked_skill_stays_projected : StaysProjected leakRun ∧ StaysProjected deletionRun := by
  constructor
  · exact ⟨returned_of_isEmpty (by decide +kernel) _, by decide +kernel, by decide +kernel,
      by decide +kernel⟩
  · exact ⟨returned_of_isEmpty (by decide +kernel) _, by decide +kernel, by decide +kernel,
      by decide +kernel⟩

/-- The change lists bob, takes the skill away and refreshes the directory. -/
def revocationRun : List (ProjectionAction Empty) :=
  .startRefresh 1 "bob" :: refreshRun 1 ++
    [.beginShareConfig 0 "reporter" ownerOnly carol 2, .flushChange 0, .listChange 0,
      .lockChange 0, .lockChange 0, .removeChange 0, .commitChange 0, .refreshChange 0 2] ++
    refreshRun 2 ++ [.returnChange 0]

/-- A revocation without a first refresh in between. -/
theorem revocationRun_not_projected :
    Transition.Guarded (projectionStep sampleConversions sampleUsers)
      (fun σ a => meets sampleConversions sampleUsers σ a) (ProjectionState.initial sampleTable)
      revocationRun ∧
    let σ := Transition.exec (projectionStep sampleConversions sampleUsers)
      (ProjectionState.initial sampleTable) revocationRun
    ∀ uid, "reporter" ∈ σ.entries uid →
      granted sampleConversions sampleUsers σ.table uid "reporter" := by
  have hguarded : Transition.Guarded (projectionStep sampleConversions sampleUsers)
      (fun σ a => meets sampleConversions sampleUsers σ a) (ProjectionState.initial sampleTable)
      revocationRun := by decide +kernel
  refine ⟨hguarded, ?_⟩
  exact (revoked_skill_not_projected sampleConversions sampleUsers sampleTable revocationRun
    hguarded).1 "reporter" (returned_of_isEmpty (by decide +kernel) _)

end Yuanlei.SkillService
