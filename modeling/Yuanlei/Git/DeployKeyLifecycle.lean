import Yuanlei.Git.DeployKeyInvariant

/-!
# The life cycle of a deploy key

One lemma for each await of a job, then the step, then the run.

Main results:

- `deployKeyStep_inv`: every step keeps the invariant.
- `deployKey_lifecycle`: the properties of the life cycle in every run.
-/

namespace Yuanlei.DeployKeys

open ProjectGit (BindingStatus)

/-! ## Jobs -/

section Jobs

variable {σ : GitSystem} {id : BindingId} {key : KeyId} {repository : RemoteRepository}

theorem HasKey.wasKey (h : RemoteInv σ) (hkey : HasKey σ id repository key) : WasKey σ id repository key := by
  obtain ⟨value, hget, htitle⟩ := hkey
  refine ⟨h.used _ value hget, fun value' hget' => ?_⟩
  rw [hget] at hget'
  cases hget'
  exact htitle

variable {b : Binding} {value : DeployKey}

theorem RemoteInv.owned_of_get (h : RemoteInv σ) (hb : σ.bindings.get id = some b)
    (hget : σ.remote.get (repository, key) = some value)
    (htitle : value.title = deployKeyTitle id) :
    repository = b.repository ∧ value.fingerprint = b.deployPublicKeyFingerprint := by
  obtain ⟨id', b', hb', hid, hrepository, hfingerprint⟩ := h.owned repository key value hget
    (by rw [htitle]; exact isOurTitle_deployKeyTitle id)
  have hsame : id = id' := deployKeyTitle_injective (htitle.symm.trans hid)
  rw [← hsame, hb] at hb'
  cases hb'
  exact ⟨hrepository.symm, hfingerprint⟩

theorem hasKey_of_matchingKey (h : σ.matchingKey (b.target id) = some (key, value)) : HasKey σ id b.repository key := by
  obtain ⟨⟨⟨repository, key'⟩, value'⟩, hfind, heq⟩ := Option.map_eq_some_iff.mp h
  cases heq
  have hmem := List.mem_of_find?_eq_some hfind
  have hmatch := List.find?_some hfind
  simp only [Bool.and_eq_true, beq_iff_eq] at hmatch
  have hget : σ.remote.get (repository, key') = some value' := (Table.mem_rows_iff _ _ _).mp hmem
  have hrepository : repository = b.repository := hmatch.1.1
  rw [← hrepository]
  exact ⟨value', hget, hmatch.1.2⟩

theorem not_hasKey_of_matchingKey (hinv : RemoteInv σ) (hb : σ.bindings.get id = some b)
    (h : σ.matchingKey (b.target id) = none)
    (repository : RemoteRepository) (key : KeyId) : ¬ HasKey σ id repository key := by
  rintro ⟨value, hget, htitle⟩
  obtain ⟨hrepository, hfingerprint⟩ := hinv.owned_of_get hb hget htitle
  have hmem : ((repository, key), value) ∈ σ.remote.rows := (Table.mem_rows_iff _ _ _).mpr hget
  have hfind := List.find?_eq_none.mp (Option.map_eq_none_iff.mp h) _ hmem
  simp [Binding.target, hrepository, hfingerprint, htitle] at hfind

variable {status : BindingStatus}

theorem isProvisioning_ne (h : isProvisioning status = true) :
    status ≠ .disabled ∧ status ≠ .active := by
  constructor <;> rintro rfl <;> cases h

theorem isDeleting_ne (h : isDeleting status = true) : status ≠ .disabled ∧ status ≠ .active := by
  constructor <;> rintro rfl <;> cases h

theorem Provisionable.ne {j : Job} (h : Provisionable j b) :
    b.status ≠ .disabled ∧ b.status ≠ .active :=
  h.status.elim isProvisioning_ne isDeleting_ne

variable {job : JobId} {j : Job}

theorem dispatchPhase_inv : PhaseInv σ j (dispatchPhase j (σ.bindings.get j.binding)) := by
  unfold dispatchPhase
  split
  · trivial
  rename_i b hb
  split
  · trivial
  split
  · trivial
  split
  · exact ⟨b, hb, ‹_›, trivial⟩
  · trivial

theorem provisionPhase_inv (h : GitInv σ) (outcome : Outcome) :
    PhaseInv σ j (provisionPhase σ j outcome) := by
  unfold provisionPhase
  split
  · trivial
  rename_i b hb
  split
  · trivial
  rename_i hcurrent
  simp only [ne_eq, not_or, not_not, Bool.not_eq_false] at hcurrent
  have hprovisionable : Provisionable j b :=
    { notStored := (h.rows _ b hb).notStored hcurrent.2
      status := .inl hcurrent.2
      current := fun _ => hcurrent.2
      generation := hcurrent.1.ge }
  split
  · exact ⟨b, hb, hprovisionable, rfl⟩
  · exact ⟨b, hb, hprovisionable, trivial⟩

theorem deletePhase_inv (hphase : Deletes σ j fun _ => True) (outcome : Outcome) :
    PhaseInv σ j (deletePhase σ j outcome) := by
  obtain ⟨b, hb, hdeleting, -⟩ := hphase
  unfold deletePhase
  rw [hb]
  dsimp only
  split
  · trivial
  split
  · exact ⟨b, hb, hdeleting, rfl, rfl⟩
  · exact ⟨b, hb, hdeleting, trivial⟩

variable {p : Binding → Prop}

theorem Provisions.failing (h : Provisions σ j p) :
    PhaseInv σ j .provisionFailing := by
  obtain ⟨b, hb, hprovisionable, -⟩ := h
  exact ⟨b, hb, hprovisionable, trivial⟩

theorem Deletes.failing (h : Deletes σ j p) : PhaseInv σ j .deleteFailing := by
  obtain ⟨b, hb, hdeleting, -⟩ := h
  exact ⟨b, hb, hdeleting, trivial⟩

theorem RowInv.withStatus (h : RowInv σ id b)
    (hlive : b.status ≠ .disabled) (hlive' : status ≠ .disabled)
    (hinactive : status ≠ .active)
    (hstored : isProvisioning status = true → b.remoteDeployKeyId = none) :
    RowInv σ id { b with status } where
  token _ := h.token hlive
  intact _ := h.intact hlive
  destroyed hdisabled := absurd hdisabled hlive'
  gone hdisabled := absurd hdisabled hlive'
  registered hactive := absurd hactive hinactive
  notStored := hstored
  stored := h.stored

theorem recordFailure_inv (h : GitInv σ) (hget : σ.jobs.get job = some j)
    (hholds : j.phase.holds = true) (hlive : status ≠ .disabled) (hinactive : status ≠ .active)
    (hcurrent : ∀ b, σ.bindings.get j.binding = some b → b.operationGeneration = j.generation →
      b.status ≠ .disabled ∧ (isProvisioning status = true → b.remoteDeployKeyId = none))
    (outcome : Outcome) : GitInv (recordFailure σ job j status outcome) := by
  unfold recordFailure
  split
  · exact h.advance hget hholds trivial
  apply h.writeRow hget hholds
  · intro b
    split <;> exact ⟨rfl, rfl⟩
  · intro b hb
    have hrow := h.rows _ b hb
    split
    · rename_i hgeneration
      obtain ⟨hlive₀, hstored⟩ := hcurrent b hb hgeneration
      exact hrow.withStatus hlive₀ hlive hinactive hstored
    · exact hrow

variable {t : Target}

section

variable (h : GitInv σ)
include h

section

variable (hget : σ.jobs.get job = some j)
include hget

section

variable (hholds : j.phase.holds = true)
include hholds

theorem createKey_inv
    (hphase : PhaseInv σ j (.noKeyFound t)) (key : KeyId) (readOnly : Bool) (outcome : Outcome) :
    GitInv (createKey σ job t key readOnly outcome) := by
  obtain ⟨b, hb, hprovisionable, ht, hnone⟩ := hphase
  have hfailing : PhaseInv σ j .provisionFailing := ⟨b, hb, hprovisionable, trivial⟩
  unfold createKey
  split
  case isFalse => exact h.advance hget hholds hfailing
  split
  · exact h.advance hget hholds hfailing
  rename_i σ' hadd
  obtain ⟨-, heq⟩ := addKey_eq_some hadd
  have hbindings : σ'.bindings = σ.bindings := by rw [heq]
  have hconnections : σ'.connections = σ.connections := by rw [heq]
  have hjobs : σ'.jobs = σ.jobs := by rw [heq]
  have htitle : t.title = deployKeyTitle j.binding := by rw [ht]; rfl
  have hremote : RemoteInv σ' := by
    refine h.remote.addKey hadd fun _ => ⟨j.binding, b, hb, htitle, ?_, ?_, hnone⟩
    · rw [ht]
      rfl
    · rw [ht]
      rfl
  have hkey : HasKey σ' j.binding b.repository key := by
    rw [h.remote.hasKey_addKey hadd]
    exact .inr ⟨by rw [ht]; rfl, htitle⟩
  have hstep : ∀ phase, PhaseInv σ' j phase → GitInv (σ'.setPhase job phase) := by
    intro phase hnext
    refine h.of_holderStep hget hholds phase
      { jobs := ?_, connections := hconnections, bindings := ?_, keys := ?_
        remote := ⟨hremote.used, hremote.owned, hremote.unique⟩, row := ?_, next := ?_ }
    · simp only [GitSystem.setPhase, hjobs]
    · intro id _
      change σ'.bindings.get id = _
      rw [hbindings]
    · intro id hid
      have hsame : SameKeys σ σ' id := by
        refine SameKeys.addKey h.remote hadd fun heq => hid ?_
        exact deployKeyTitle_injective (heq.symm.trans htitle)
      exact ⟨hsame.hasKey, hsame.wasKey⟩
    · intro b' hb'
      change σ'.bindings.get j.binding = some b' at hb'
      rw [hbindings, hb] at hb'
      cases hb'
      have hrow := h.rows _ b hb
      constructor
      case token =>
        intro hlive
        change GitSystem.tokenOf σ' b.connectionId true = true
        unfold GitSystem.tokenOf
        rw [hconnections]
        exact hrow.token hlive
      case intact => exact hrow.intact
      case destroyed => exact hrow.destroyed
      case gone => exact fun hdisabled => absurd hdisabled hprovisionable.ne.1
      case registered => exact fun hactive => absurd hactive hprovisionable.ne.2
      case notStored => exact fun _ => hprovisionable.notStored
      case stored =>
        intro key' hstored
        rw [hprovisionable.notStored] at hstored
        cases hstored
    · exact hnext.sameKeys (.of_get_eq fun b hb => hb) ⟨fun _ _ => Iff.rfl, fun _ _ hwas => hwas⟩
  have hb' : σ'.bindings.get j.binding = some b := by rw [hbindings, hb]
  apply hstep
  split
  · exact ⟨b, hb', hprovisionable, trivial⟩
  · exact ⟨b, hb', hprovisionable, ht, hkey⟩

theorem deleteDeployKey_inv (hb : σ.bindings.get j.binding = some b)
    (hinactive : b.status ≠ .active) (hwas : WasKey σ j.binding b.repository key)
    {phase : JobPhase} (hnext : PhaseInv (σ.deleteDeployKey b.repository key) j phase) :
    GitInv ((σ.deleteDeployKey b.repository key).setPhase job phase) := by
  have hremote : RemoteInv (σ.deleteDeployKey b.repository key) := h.remote.deleteDeployKey
  refine h.of_holderStep hget hholds phase
    { jobs := rfl, connections := rfl, bindings := fun _ _ => rfl, keys := ?_
      remote := ⟨hremote.used, hremote.owned, hremote.unique⟩, row := ?_, next := ?_ }
  · intro id hid
    have hsame : SameKeys σ (σ.deleteDeployKey b.repository key) id := by
      refine SameKeys.deleteDeployKey ?_
      rintro ⟨value, hslot, htitle⟩
      exact hid (deployKeyTitle_injective (htitle.symm.trans (hwas.2 value hslot)))
    exact ⟨hsame.hasKey, hsame.wasKey⟩
  · intro b' hb'
    have hrow := h.rows _ b' hb'
    have heq : b' = b := Option.some.inj (hb'.symm.trans hb)
    subst heq
    constructor
    case token => exact hrow.token
    case intact => exact hrow.intact
    case destroyed => exact hrow.destroyed
    case gone =>
      intro hdisabled repository key' hkey
      exact hrow.gone hdisabled repository key' (hasKey_of_deleteDeployKey hkey).2
    case registered => exact fun hactive => absurd hactive hinactive
    case notStored => exact hrow.notStored
    case stored =>
      intro key' hstored
      obtain ⟨hwas', honly⟩ := hrow.stored key' hstored
      refine ⟨hwas'.deleteDeployKey, fun repository key'' hkey => ?_⟩
      exact honly repository key'' (hasKey_of_deleteDeployKey hkey).2
  · exact hnext.sameKeys (.of_get_eq fun b hb => hb) ⟨fun _ _ => Iff.rfl, fun _ _ hwas => hwas⟩

theorem superseded_inv
    (hphase : PhaseInv σ j (.superseded t key)) (outcome : Outcome) :
    GitInv ((if outcome.hasEffect then σ.deleteDeployKey t.repository key else σ).setPhase job
      (if outcome.raises then .provisionFailing else .ended)) := by
  obtain ⟨b, hb, hprovisionable, ht, hkey⟩ := hphase
  have hrepository : t.repository = b.repository := by rw [ht]; rfl
  rw [hrepository]
  split
  · apply deleteDeployKey_inv h hget hholds hb hprovisionable.ne.2 (hkey.wasKey h.remote)
    split
    · exact ⟨b, hb, hprovisionable, trivial⟩
    · trivial
  · apply h.advance hget hholds
    split
    · exact ⟨b, hb, hprovisionable, trivial⟩
    · trivial

theorem deleteKeyFound_inv
    (hphase : PhaseInv σ j (.deleteKeyFound t key)) (outcome : Outcome) :
    GitInv ((if outcome.hasEffect then σ.deleteDeployKey t.repository key else σ).setPhase job
      (if outcome.raises then .deleteFailing else .keyDeleted)) := by
  obtain ⟨b, hb, hdeleting, ht, hwas, honly⟩ := hphase
  have hrepository : t.repository = b.repository := by rw [ht]; rfl
  rw [hrepository]
  by_cases heffect : outcome.hasEffect = true
  · rw [if_pos heffect]
    apply deleteDeployKey_inv h hget hholds hb (isDeleting_ne hdeleting).2 hwas
    split
    · exact ⟨b, hb, hdeleting, trivial⟩
    · refine ⟨b, hb, hdeleting, fun repository key' hkey => ?_⟩
      obtain ⟨hne, hkey⟩ := hasKey_of_deleteDeployKey hkey
      have hsame : key' = key := honly repository key' hkey
      obtain ⟨value, hslot, htitle⟩ := hkey
      have hown : repository = b.repository := (h.remote.owned_of_get hb hslot htitle).1
      exact hne (by rw [hsame, hown])
  · rw [if_neg heffect]
    have hraises : outcome.raises = true := by
      cases outcome with
      | done => exact absurd rfl heffect
      | raised => rfl
      | doneAndRaised => rfl
    rw [if_pos hraises]
    exact h.advance hget hholds ⟨b, hb, hdeleting, trivial⟩

theorem finishProvision_inv (hphase : PhaseInv σ j (.bundleFetched t key)) (outcome : Outcome) :
    GitInv (finishProvision σ job j t key outcome) := by
  obtain ⟨b, hb, hprovisionable, ht, hkey⟩ := hphase
  unfold finishProvision
  rw [hb]
  dsimp only
  split
  · exact h.advance hget hholds ⟨b, hb, hprovisionable, ht, hkey⟩
  split
  · exact h.advance hget hholds ⟨b, hb, hprovisionable, trivial⟩
  apply h.writeRow hget hholds
  · exact fun _ => ⟨rfl, rfl⟩
  · intro b' hb'
    have heq : b' = b := Option.some.inj (hb'.symm.trans hb)
    subst heq
    have hrow := h.rows _ b' hb
    have hlive := hprovisionable.ne.1
    constructor
    case token => exact fun _ => hrow.token hlive
    case intact => exact fun _ => hrow.intact hlive
    case destroyed => exact fun hdisabled => by cases hdisabled
    case gone => exact fun hdisabled => by cases hdisabled
    case registered => exact fun _ => ⟨key, rfl, hkey⟩
    case notStored => exact fun hprovisioning => by cases hprovisioning
    case stored =>
      intro key' hstored
      cases hstored
      refine ⟨hkey.wasKey h.remote, fun repository key' hkey' => ?_⟩
      exact h.remote.unique j.binding _ _ _ _ hkey' hkey

theorem finishDelete_inv (hphase : PhaseInv σ j .keyDeleted) (outcome : Outcome) :
    GitInv (finishDelete σ job j outcome) := by
  obtain ⟨b, hb, hdeleting, hnone⟩ := hphase
  unfold finishDelete
  split
  · exact h.advance hget hholds ⟨b, hb, hdeleting, trivial⟩
  apply h.writeRow hget hholds
  · intro b'
    split <;> exact ⟨rfl, rfl⟩
  · intro b' hb'
    have hrow := h.rows _ b' hb'
    split
    · constructor
      case token => exact fun hlive => absurd rfl hlive
      case intact => exact fun hlive => absurd rfl hlive
      case destroyed => exact fun _ => rfl
      case gone => exact fun _ => hnone
      case registered => exact fun hactive => by cases hactive
      case notStored => exact fun hprovisioning => by cases hprovisioning
      case stored => exact hrow.stored
    · exact hrow

end

theorem resumeJob_inv (key : KeyId) (readOnly : Bool) (outcome : Outcome) :
    GitInv (resumeJob σ job j key readOnly outcome) := by
  have hphase : PhaseInv σ j j.phase := h.phases job j hget
  have hheld : ∀ phase, j.phase = phase → phase.holds = true → j.phase.holds = true :=
    fun phase heq hholds => by rw [heq]; exact hholds
  unfold resumeJob
  split <;> rename_i heq <;> rw [heq] at hphase
  case h_1 =>
    split
    · exact h
    · rename_i hfree
      refine h.setPhase fun j' hget' => ?_
      cases hget.symm.trans hget'
      refine ⟨trivial, fun _ job' j' hjob' hholds' hbinding => absurd ?_ hfree⟩
      have hmem : (job', j') ∈ σ.jobs.rows := (Table.mem_rows_iff _ _ _).mpr hjob'
      exact List.any_eq_true.mpr ⟨(job', j'), hmem, by simp [hbinding, hholds']⟩
  case h_2 =>
    apply h.advance hget (hheld _ heq rfl)
    split
    · trivial
    · exact dispatchPhase_inv
  case h_3 => exact h.advance hget (hheld _ heq rfl) (provisionPhase_inv h outcome)
  case h_4 t =>
    apply h.advance hget (hheld _ heq rfl)
    split
    · exact Provisions.failing hphase
    · exact hphase
  case h_5 t =>
    apply h.advance hget (hheld _ heq rfl)
    split
    · exact Provisions.failing hphase
    obtain ⟨b, hb, hprovisionable, rfl⟩ := hphase
    split
    · rename_i found k hmatch
      exact ⟨b, hb, hprovisionable, rfl, hasKey_of_matchingKey hmatch⟩
    · rename_i hmatch
      exact ⟨b, hb, hprovisionable, rfl, not_hasKey_of_matchingKey h.remote hb hmatch⟩
  case h_6 t => exact createKey_inv h hget (hheld _ heq rfl) hphase key readOnly outcome
  case h_7 t found foundReadOnly =>
    apply h.advance hget (hheld _ heq rfl)
    split
    · exact Provisions.failing hphase
    · exact hphase
  case h_8 t found => exact finishProvision_inv h hget (hheld _ heq rfl) hphase outcome
  case h_9 t found => exact superseded_inv h hget (hheld _ heq rfl) hphase outcome
  case h_10 =>
    apply recordFailure_inv h hget (hheld _ heq rfl) (by decide) (by decide)
    intro b hb hgeneration
    obtain ⟨b', hb', hprovisionable, -⟩ := hphase
    rw [hb] at hb'
    cases hb'
    exact ⟨hprovisionable.ne.1, fun _ => hprovisionable.notStored⟩
  case h_11 => exact h.advance hget (hheld _ heq rfl) (deletePhase_inv hphase outcome)
  case h_12 t stored =>
    apply h.advance hget (hheld _ heq rfl)
    split
    · exact Deletes.failing hphase
    obtain ⟨b, hb, hdeleting, rfl, hstored⟩ := hphase
    split
    · obtain ⟨hwas, honly⟩ := (h.rows _ b hb).stored _ hstored.symm
      exact ⟨b, hb, hdeleting, rfl, hwas, honly⟩
    split
    · rename_i found k hmatch
      have hkey : HasKey σ j.binding b.repository found := hasKey_of_matchingKey hmatch
      refine ⟨b, hb, hdeleting, rfl, hkey.wasKey h.remote, fun repository key' hkey' => ?_⟩
      exact h.remote.unique j.binding _ _ _ _ hkey' hkey
    · rename_i hmatch
      exact ⟨b, hb, hdeleting, not_hasKey_of_matchingKey h.remote hb hmatch⟩
  case h_13 t found => exact deleteKeyFound_inv h hget (hheld _ heq rfl) hphase outcome
  case h_14 => exact finishDelete_inv h hget (hheld _ heq rfl) hphase outcome
  case h_15 =>
    apply recordFailure_inv h hget (hheld _ heq rfl) (by decide) (by decide)
    intro b hb hgeneration
    obtain ⟨b', hb', hdeleting, -⟩ := hphase
    rw [hb] at hb'
    cases hb'
    exact ⟨(isDeleting_ne hdeleting).1, fun hprovisioning => by cases hprovisioning⟩
  case h_16 => exact h

end

/-- Every request, every await of a job, every crash and every foreign write keeps the invariant. -/
theorem deployKeyStep_inv (a : GitAction) : GitInv (deployKeyStep σ a) := by
  cases a with
  | createConnection id apiOrigin =>
    simp only [deployKeyStep]
    split
    · exact h
    · exact createConnection_inv h ‹_›
  | deleteConnection id => exact deleteConnection_inv h id
  | create id connectionId owner name fingerprint =>
    exact createBinding_inv h id connectionId owner name fingerprint
  | retry id => exact h.request requested_retried id
  | deactivate id => exact h.request requested_deactivated id
  | enqueue job binding generation =>
    simp only [deployKeyStep]
    split
    · exact h
    · exact enqueue_inv h ‹_›
  | resume job key readOnly outcome =>
    simp only [deployKeyStep]
    split
    · exact h
    · exact resumeJob_inv h ‹_› key readOnly outcome
  | crash job =>
    exact h.setPhase fun _ _ => ⟨trivial, fun hholds => by cases hholds⟩
  | addForeignKey repository key value =>
    simp only [deployKeyStep]
    split
    · exact h
    · rename_i hforeign
      cases hadd : σ.addKey repository key value with
      | none => exact h
      | some σ' => exact addForeignKey_inv h (by simpa using hforeign) hadd
  | removeForeignKey repository key =>
    simp only [deployKeyStep]
    split
    · exact h
    · rename_i hforeign
      exact removeForeignKey_inv h (by simpa using hforeign)

end

end Jobs

/-! ## What a job writes to its binding -/

section Writes

variable {σ : GitSystem} {job : JobId} {j : Job}

/-- What a job makes of a binding of its own generation. -/
def JobWrite (j : Job) (b b' : Binding) : Prop :=
  b.operationGeneration = j.generation ∧
    (isProvisioning b.status = true ∧ (b'.status = .active ∨ b'.status = .provisionFailed) ∨
      isDeleting b.status = true ∧ (b'.status = .disabled ∨ b'.status = .deleteFailed))

/-- The row of a binding is left alone, or written by a job of its generation. -/
def RowWritten (σ σ' : GitSystem) (j : Job) (id : BindingId) : Prop :=
  σ'.bindings.get id = σ.bindings.get id ∨
    (id = j.binding ∧ ∃ b b', σ.bindings.get id = some b ∧ σ'.bindings.get id = some b' ∧
      JobWrite j b b')

variable {b : Binding} {f : Binding → Binding}

theorem RowWritten.of_modify {phase : JobPhase} (hb : σ.bindings.get j.binding = some b)
    (hwrite : f b = b ∨ JobWrite j b (f b))
    (id : BindingId) :
    RowWritten σ ((σ.modifyBinding j.binding f).setPhase job phase) j id := by
  have hget : ∀ id', ((σ.modifyBinding j.binding f).setPhase job phase).bindings.get id' =
      (σ.bindings.modify j.binding f).get id' := fun _ => rfl
  unfold RowWritten
  rw [hget]
  by_cases hid : id = j.binding
  · subst hid
    rw [Table.get_modify_self, hb, Option.map_some]
    rcases hwrite with heq | hwrite
    · exact .inl (by rw [heq])
    · exact .inr ⟨rfl, b, f b, rfl, rfl, hwrite⟩
  · rw [Table.get_modify_of_ne _ hid]
    exact .inl rfl

theorem recordFailure_rowWritten {status : BindingStatus} (hb : σ.bindings.get j.binding = some b)
    (hwrite : b.operationGeneration = j.generation → JobWrite j b { b with status })
    (outcome : Outcome) (id : BindingId) :
    RowWritten σ (recordFailure σ job j status outcome) j id := by
  unfold recordFailure
  split
  · exact .inl rfl
  apply RowWritten.of_modify hb
  by_cases hgeneration : b.operationGeneration = j.generation
  · rw [if_pos hgeneration]
    exact .inr (hwrite hgeneration)
  · rw [if_neg hgeneration]
    exact .inl rfl

theorem createKey_bindings (t : Target) (key : KeyId) (readOnly : Bool) (outcome : Outcome) :
    (createKey σ job t key readOnly outcome).bindings = σ.bindings := by
  unfold createKey
  split
  · split
    · rfl
    · rename_i σ' hadd
      obtain ⟨-, rfl⟩ := addKey_eq_some hadd
      rfl
  · rfl

theorem resumeJob_rowWritten (h : GitInv σ) (hget : σ.jobs.get job = some j) (key : KeyId)
    (readOnly : Bool) (outcome : Outcome) (id : BindingId) :
    RowWritten σ (resumeJob σ job j key readOnly outcome) j id := by
  have hphase : PhaseInv σ j j.phase := h.phases job j hget
  unfold resumeJob
  split <;> rename_i heq <;> rw [heq] at hphase
  case h_1 => split <;> exact .inl rfl
  case h_6 t => exact .inl (by rw [createKey_bindings])
  case h_8 t found =>
    obtain ⟨b, hb, hprovisionable, -⟩ := hphase
    unfold finishProvision
    rw [hb]
    dsimp only
    split
    · exact .inl rfl
    rename_i hgeneration
    split
    · exact .inl rfl
    have hcurrent : b.operationGeneration = j.generation := not_not.mp hgeneration
    apply RowWritten.of_modify hb
    exact .inr ⟨hcurrent, .inl ⟨hprovisionable.current hcurrent, .inl rfl⟩⟩
  case h_9 t found => split <;> exact .inl rfl
  case h_10 =>
    obtain ⟨b, hb, hprovisionable, -⟩ := hphase
    apply recordFailure_rowWritten hb
    intro hcurrent
    exact ⟨hcurrent, .inl ⟨hprovisionable.current hcurrent, .inr rfl⟩⟩
  case h_13 t found => split <;> exact .inl rfl
  case h_14 =>
    obtain ⟨b, hb, hdeleting, -⟩ := hphase
    unfold finishDelete
    split
    · exact .inl rfl
    apply RowWritten.of_modify hb
    by_cases hgeneration : b.operationGeneration = j.generation
    · rw [if_pos hgeneration]
      exact .inr ⟨hgeneration, .inr ⟨hdeleting, .inl rfl⟩⟩
    · rw [if_neg hgeneration]
      exact .inl rfl
  case h_15 =>
    obtain ⟨b, hb, hdeleting, -⟩ := hphase
    apply recordFailure_rowWritten hb
    intro hcurrent
    exact ⟨hcurrent, .inr ⟨hdeleting, .inr rfl⟩⟩
  all_goals exact .inl rfl

variable {id : BindingId}

theorem resume_changes_own_generation (h : GitInv σ) {key : KeyId} {readOnly : Bool}
    {outcome : Outcome}
    (hchange : (deployKeyStep σ (.resume job key readOnly outcome)).bindings.get id ≠
      σ.bindings.get id) :
    ∃ j b, σ.jobs.get job = some j ∧ j.binding = id ∧ σ.bindings.get id = some b ∧
      b.operationGeneration = j.generation := by
  simp only [deployKeyStep] at hchange
  split at hchange
  · exact absurd rfl hchange
  rename_i j hget
  rcases resumeJob_rowWritten h hget key readOnly outcome id with hsame | ⟨hid, b, b', hb, -, hwrite⟩
  · exact absurd hsame hchange
  · exact ⟨j, b, hget, hid.symm, hb, hwrite.1⟩

/-- The statuses after a deactivation. -/
def isRevoked (status : BindingStatus) : Bool :=
  status == .deleting || status == .deleteFailed || status == .disabled

variable {b' : Binding}

theorem JobWrite.isRevoked (h : JobWrite j b b') (hrevoked : DeployKeys.isRevoked b.status = true) :
    DeployKeys.isRevoked b'.status = true := by
  rcases h.2 with ⟨hprovisioning, -⟩ | ⟨-, hstatus | hstatus⟩
  · cases hstatus : b.status <;> simp_all [DeployKeys.isRevoked, isProvisioning]
  · simp [DeployKeys.isRevoked, hstatus]
  · simp [DeployKeys.isRevoked, hstatus]

theorem Requested.isRevoked (h : Requested b b') (hrevoked : DeployKeys.isRevoked b.status = true) :
    DeployKeys.isRevoked b'.status = true := by
  rcases h.change with ⟨hstatus, -⟩ | ⟨-, -, ⟨hfailed, -⟩ | hstatus⟩
  · rw [hstatus]
    exact hrevoked
  · rw [hfailed] at hrevoked
    cases hrevoked
  · rw [hstatus]
    rfl

theorem isRevoked_deactivated (b : Binding) : isRevoked (deactivated b).status = true := by
  unfold deactivated
  split
  · rename_i hdisabled
    rw [hdisabled]
    rfl
  · rfl

/-- The binding has a row with such a status. -/
def RevokedIn (id : BindingId) (σ : GitSystem) : Prop :=
  ∃ b, σ.bindings.get id = some b ∧ isRevoked b.status = true

theorem RevokedIn.request (h : RevokedIn id σ) (hf : ∀ b, Requested b (f b)) (id' : BindingId) : RevokedIn id
    (σ.modifyBinding id' f) := by
  obtain ⟨b, hb, hrevoked⟩ := h
  change ∃ b, (σ.bindings.modify id' f).get id = some b ∧ _
  rw [Table.get_modify]
  split
  · exact ⟨f b, by rw [hb, Option.map_some], (hf b).isRevoked hrevoked⟩
  · exact ⟨b, hb, hrevoked⟩

theorem RevokedIn.createBinding (h : RevokedIn id σ) (id' : BindingId)
    (connectionId : ConnectionId) (owner name fingerprint : String) :
    RevokedIn id (DeployKeys.createBinding σ id' connectionId owner name fingerprint) := by
  obtain ⟨b, hb, hrevoked⟩ := h
  unfold DeployKeys.createBinding
  split
  · exact ⟨b, hb, hrevoked⟩
  split
  case isFalse => exact ⟨b, hb, hrevoked⟩
  split
  · exact ⟨b, hb, hrevoked⟩
  rename_i bindings hinsert
  obtain ⟨hfree, hget⟩ := Table.get_of_insert hinsert
  have hne : id ≠ id' := fun heq => by rw [heq, hfree] at hb; cases hb
  exact ⟨b, by rw [hget, if_neg hne, hb], hrevoked⟩

/-- A binding that has been deactivated stays so. -/
theorem deployKeyStep_revoked (h : GitInv σ) (hrevoked : RevokedIn id σ)
    (a : GitAction) : RevokedIn id (deployKeyStep σ a) := by
  have hsame : ∀ σ' : GitSystem, σ'.bindings = σ.bindings → RevokedIn id σ' := by
    intro σ' hbindings
    unfold RevokedIn
    rw [hbindings]
    exact hrevoked
  cases a with
  | createConnection id apiOrigin =>
    simp only [deployKeyStep]
    split <;> exact hsame _ rfl
  | deleteConnection id =>
    simp only [deployKeyStep, deleteConnection]
    split
    · exact hrevoked
    split <;> exact hsame _ rfl
  | create id' connectionId owner name fingerprint =>
    exact hrevoked.createBinding id' connectionId owner name fingerprint
  | retry id' => exact hrevoked.request requested_retried id'
  | deactivate id' => exact hrevoked.request requested_deactivated id'
  | enqueue job binding generation =>
    simp only [deployKeyStep]
    split <;> exact hsame _ rfl
  | resume job key readOnly outcome =>
    simp only [deployKeyStep]
    split
    · exact hrevoked
    rename_i j hget
    obtain ⟨b, hb, hstatus⟩ := hrevoked
    rcases resumeJob_rowWritten h hget key readOnly outcome id with
      heq | ⟨-, b₀, b', hb₀, hb', hwrite⟩
    · exact ⟨b, heq.trans hb, hstatus⟩
    · rw [hb] at hb₀
      cases hb₀
      exact ⟨b', hb', hwrite.isRevoked hstatus⟩
  | crash job => exact hsame _ rfl
  | addForeignKey repository key value =>
    simp only [deployKeyStep]
    split
    · exact hrevoked
    cases hadd : σ.addKey repository key value with
    | none => exact hrevoked
    | some σ' =>
      obtain ⟨-, rfl⟩ := addKey_eq_some hadd
      exact hsame _ rfl
  | removeForeignKey repository key =>
    simp only [deployKeyStep]
    split <;> exact hsame _ rfl

end Writes

/-! ## Runs -/

theorem gitInv_exec (as : List GitAction) : GitInv (Transition.exec deployKeyStep .empty as) :=
  Transition.exec_invariant deployKeyStep (P := GitInv) (fun _ a h => deployKeyStep_inv h a)
    gitInv_empty as

theorem revoked_exec {σ : GitSystem} (h : GitInv σ) {id : BindingId} (hrevoked : RevokedIn id σ)
    (as : List GitAction) : RevokedIn id (Transition.exec deployKeyStep σ as) := by
  have hboth : GitInv (Transition.exec deployKeyStep σ as) ∧
      RevokedIn id (Transition.exec deployKeyStep σ as) := by
    refine Transition.exec_invariant deployKeyStep (P := fun σ => GitInv σ ∧ RevokedIn id σ) ?_
      ⟨h, hrevoked⟩ as
    exact fun σ a hσ => ⟨deployKeyStep_inv hσ.1 a, deployKeyStep_revoked hσ.1 hσ.2 a⟩
  exact hboth.2

/-- A binding that is provisioned by a job without failures. -/
def provisionRun : List GitAction :=
  [.createConnection "c" "https://git", .create "b" "c" "o" "r" "fp", .enqueue 0 "b" 1] ++
    List.replicate 8 (.resume 0 "1" false .done)

example : ((Transition.exec deployKeyStep .empty provisionRun).bindings.get "b").map (·.status) =
    some .active := by decide +kernel

end Yuanlei.DeployKeys
