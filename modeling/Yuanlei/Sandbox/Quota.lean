import Yuanlei.Sandbox.Lease

/-!
# Quotas of dedicated sandboxes

A dedicated sandbox is bound to a user, an agent and a project by a row.  `_ensure_binding`
counts the rows of the user before it inserts one, and rewrites the policy of a row that exists
without counting.  The transaction around it is committed by the caller, so its write is open for
a while: other transactions count without it.

Main results:

- `quota_at_creation`: the limits hold of what is created.
- `promotion_exceeds`: a change of policy goes beyond the resident limit.
-/

namespace Yuanlei

/-! ## Policies and bindings -/

inductive SandboxMode where
  | shared
  | dedicated
deriving DecidableEq

inductive SandboxLifecycle where
  | ephemeral
  | persistent
  | resident
deriving DecidableEq

inductive SandboxResumePolicy where
  | auto
  | confirm
deriving DecidableEq

structure SandboxPolicy where
  mode : SandboxMode := .shared
  lifecycle : SandboxLifecycle := .ephemeral
  resumePolicy : SandboxResumePolicy := .auto
  idleSuspendSeconds : Option Nat := none
deriving DecidableEq

namespace SandboxPolicy

def isDedicated (policy : SandboxPolicy) : Bool :=
  policy.mode == .dedicated

/-- `provisioner_idle_timeout`: a resident sandbox is never collected. -/
def provisionerIdleTimeout (policy : SandboxPolicy) : Option Nat :=
  if policy.lifecycle = .resident then some 0 else policy.idleSuspendSeconds

end SandboxPolicy

inductive SandboxStatus where
  | active
  | reaping
  | suspended
  | error
deriving DecidableEq

/-- The lifecycle columns of a row of `agent_sandboxes`. -/
structure SandboxBinding where
  uid : String
  lifecycle : SandboxLifecycle
  resumePolicy : SandboxResumePolicy
  idleTimeoutSeconds : Option Nat
  status : SandboxStatus := .active
  generation : Option String := none
  credentialFingerprint : Option String := none
deriving DecidableEq

/-- `AgentSandboxRepository.add`. -/
def SandboxBinding.added (key : SandboxKey) (policy : SandboxPolicy) : SandboxBinding where
  uid := key.uid
  lifecycle := policy.lifecycle
  resumePolicy := policy.resumePolicy
  idleTimeoutSeconds := policy.provisionerIdleTimeout

def SandboxBinding.applyPolicy (row : SandboxBinding) (policy : SandboxPolicy) : SandboxBinding :=
  { row with
    lifecycle := policy.lifecycle
    resumePolicy := policy.resumePolicy
    idleTimeoutSeconds := policy.provisionerIdleTimeout }

structure SandboxQuotaLimits where
  dedicatedMax : Nat
  residentMax : Nat

abbrev SandboxBindings := Table SandboxKey SandboxBinding

namespace SandboxBindings

/-- The rows of a user. -/
def ofUser (rows : SandboxBindings) (uid : String) : Nat :=
  rows.rows.countP fun e => e.2.uid == uid

/-- The resident rows of a user. -/
def residentOf (rows : SandboxBindings) (uid : String) : Nat :=
  rows.rows.countP fun e => e.2.uid == uid && e.2.lifecycle == .resident

end SandboxBindings

/-! ## The service -/

namespace SandboxQuota

/-- The text of `SandboxQuotaExceededError`. -/
def quotaExceeded (limitKey : String) (limit current : Nat) : String :=
  "sandbox_quota_exceeded: " ++ limitKey ++ " limit=" ++ toString limit ++ " current=" ++
    toString current

def enforceSandboxQuota (rows : SandboxBindings) (limits : SandboxQuotaLimits) (uid : String)
    (policy : SandboxPolicy) : Except String Unit :=
  if policy.isDedicated = false then .ok ()
  else if limits.dedicatedMax ≤ rows.ofUser uid then
    .error (quotaExceeded "sandbox_dedicated_max_per_user" limits.dedicatedMax (rows.ofUser uid))
  else if policy.lifecycle = .resident ∧ limits.residentMax ≤ rows.residentOf uid then
    .error (quotaExceeded "sandbox_resident_max_per_user" limits.residentMax (rows.residentOf uid))
  else .ok ()

/-- A write of a transaction that is not committed yet. -/
inductive Write where
  | insert (key : SandboxKey) (row : SandboxBinding)
  | update (key : SandboxKey) (row : SandboxBinding)
deriving DecidableEq

/-- `_ensure_binding` on the committed rows. -/
def ensureBinding (rows : SandboxBindings) (limits : SandboxQuotaLimits) (key : SandboxKey)
    (policy : SandboxPolicy) : Except String Write :=
  if policy.isDedicated = false then .error "ensure_binding requires a dedicated sandbox policy"
  else
    match rows.get key with
    | none =>
      match enforceSandboxQuota rows limits key.uid policy with
      | .error e => .error e
      | .ok () => .ok (.insert key (.added key policy))
    | some row => .ok (.update key (row.applyPolicy policy))

/-! ## The system -/

abbrev SessionId := Nat

/-- The committed rows and the open writes; next to them, how often a committed call has made an
existing row of a user resident. -/
structure State where
  rows : SandboxBindings
  writes : Table SessionId Write
  promoted : String → Nat

/-- No rows and no transactions. -/
def State.initial : State where
  rows := .empty
  writes := .empty
  promoted := fun _ => 0

inductive Event where
  /-- `ensure_binding`, or the first step of `ensure_ready`. -/
  | call (s : SessionId) (key : SandboxKey) (policy : SandboxPolicy)
  | commit (s : SessionId)
  /-- The caller raises and rolls back. -/
  | abort (s : SessionId)
deriving DecidableEq

/-- Another session holds the lock of the row. -/
def State.locked (st : State) (key : SandboxKey) : Bool :=
  st.writes.rows.any fun e =>
    match e.2 with
    | .update key' _ => key' == key
    | .insert _ _ => false

/-- The state after a write is committed; a second insert under a key violates
`uq_agent_sandboxes_owner`. -/
def State.apply (st : State) : Write → State
  | .insert key row =>
    match st.rows.insert key row with
    | none => st
    | some rows => { st with rows := rows }
  | .update key row =>
    let promotes := (st.rows.get key).any fun before =>
      before.lifecycle != .resident && row.lifecycle == .resident
    { st with
      rows := st.rows.modify key fun _ => row
      promoted := if promotes then
        Function.update st.promoted row.uid (st.promoted row.uid + 1) else st.promoted }

/-- The session ends. -/
def State.close (st : State) (s : SessionId) : State :=
  { st with writes := st.writes.erase s }

/-- One step; a session that has written, or has to wait for a lock, does nothing. -/
def step (limits : SandboxQuotaLimits) (st : State) : Event → State
  | .call s key policy =>
    if st.locked key then st
    else
      match ensureBinding st.rows limits key policy with
      | .error _ => st
      | .ok write =>
        match st.writes.insert s write with
        | none => st
        | some writes => { st with writes := writes }
  | .commit s =>
    match st.writes.get s with
    | none => st
    | some write => (st.apply write).close s
  | .abort s => st.close s

/-- The session creates a binding while another creation of the user is open. -/
def State.creationOpen (st : State) (uid : String) : Bool :=
  st.writes.rows.any fun e =>
    match e.2 with
    | .insert key _ => key.uid == uid
    | .update _ _ => false

/-- No two creations of one user are open at once. -/
def CreatesAlone (st : State) : Event → Prop
  | .call _ key _ => st.rows.get key = none → st.creationOpen key.uid = false
  | _ => True

instance (st : State) : ∀ e, Decidable (CreatesAlone st e)
  | .call _ key _ =>
    inferInstanceAs (Decidable (st.rows.get key = none → st.creationOpen key.uid = false))
  | .commit _ => inferInstanceAs (Decidable True)
  | .abort _ => inferInstanceAs (Decidable True)

/-! ## The invariant -/

/-- What the counts are while writes are open. -/
structure QuotaInv (limits : SandboxQuotaLimits) (st : State) : Prop where
  dedicated : ∀ uid, st.rows.ofUser uid ≤ limits.dedicatedMax
  resident : ∀ uid, st.rows.residentOf uid ≤ limits.residentMax + st.promoted uid
  owner : ∀ {key row}, st.rows.get key = some row → row.uid = key.uid
  /-- An open creation found room, and there is still room for it. -/
  creation : ∀ {s key row}, st.writes.get s = some (.insert key row) → row.uid = key.uid ∧
    st.rows.ofUser key.uid < limits.dedicatedMax ∧ (row.lifecycle = .resident →
        st.rows.residentOf key.uid < limits.residentMax + st.promoted key.uid)
  alone : ∀ {s t key key' row row'}, st.writes.get s = some (.insert key row) →
    st.writes.get t = some (.insert key' row') → key.uid = key'.uid → s = t
  update : ∀ {s key row}, st.writes.get s = some (.update key row) → row.uid = key.uid

theorem quotaInv_initial (limits : SandboxQuotaLimits) : QuotaInv limits .initial where
  dedicated := fun _ => Nat.zero_le _
  resident := fun _ => Nat.zero_le _
  owner := fun h => by cases h
  creation := fun h => by cases h
  alone := fun h => by cases h
  update := fun h => by cases h

variable {st : State} {s : SessionId} {write : Write}

theorem get_of_erase {t : SessionId} (h : (st.writes.erase s).get t = some write) : t ≠ s ∧ st.writes.get t = some write := by
  rw [Table.get_erase] at h
  split_ifs at h with hts
  exact ⟨hts, h⟩

variable {limits : SandboxQuotaLimits}

theorem QuotaInv.close (h : QuotaInv limits st) (s : SessionId) : QuotaInv limits (st.close s) where
  dedicated := h.dedicated
  resident := h.resident
  owner := h.owner
  creation := fun hwrite => h.creation (get_of_erase hwrite).2
  alone := fun hwrite hwrite' => h.alone (get_of_erase hwrite).2 (get_of_erase hwrite').2
  update := fun hwrite => h.update (get_of_erase hwrite).2

/-! ## Calls -/

variable {rows : SandboxBindings} {key : SandboxKey} {policy : SandboxPolicy}

/-- What a call that does not raise has checked. -/
theorem ensureBinding_eq_ok (h : ensureBinding rows limits key policy = .ok write) :
    (rows.get key = none ∧ write = .insert key (.added key policy) ∧
      rows.ofUser key.uid < limits.dedicatedMax ∧
      (policy.lifecycle = .resident → rows.residentOf key.uid < limits.residentMax)) ∨
    ∃ row, rows.get key = some row ∧ write = .update key (row.applyPolicy policy) := by
  unfold ensureBinding at h
  split_ifs at h with hshared
  split at h
  · rename_i hnone
    split at h
    · cases h
    · rename_i hquota
      cases h
      unfold enforceSandboxQuota at hquota
      rw [if_neg hshared] at hquota
      split_ifs at hquota with hdedicated hresident
      refine .inl ⟨hnone, rfl, by omega, ?_⟩
      intro hlifecycle
      by_contra hfull
      exact hresident ⟨hlifecycle, by omega⟩
  · rename_i row hrow
    cases h
    exact .inr ⟨row, hrow, rfl⟩

variable {row : SandboxBinding}

theorem creationOpen_of_get (h : st.writes.get s = some (.insert key row)) : st.creationOpen key.uid = true := by
  refine List.any_eq_true.mpr ⟨(s, .insert key row), (st.writes.mem_rows_iff s _).mpr h, ?_⟩
  simp

theorem QuotaInv.call (h : QuotaInv limits st) {writes : Table SessionId Write}
    (hguard : st.rows.get key = none → st.creationOpen key.uid = false)
    (hwrite : ensureBinding st.rows limits key policy = .ok write)
    (hinsert : st.writes.insert s write = some writes) :
    QuotaInv limits { st with writes := writes } := by
  obtain ⟨-, hget⟩ := Table.get_of_insert hinsert
  -- an open write is the new one or an old one
  have hcases : ∀ {t w}, writes.get t = some w →
      t = s ∧ w = write ∨ t ≠ s ∧ st.writes.get t = some w := by
    intro t w hw
    rw [hget] at hw
    split_ifs at hw with hts
    · exact .inl ⟨hts, (Option.some.inj hw).symm⟩
    · exact .inr ⟨hts, hw⟩
  have hchecked := ensureBinding_eq_ok hwrite
  -- an open creation of the same user contradicts the guard
  have hother : ∀ {t key' row row'}, write = .insert key row →
      st.writes.get t = some (.insert key' row') → key.uid ≠ key'.uid := by
    intro t key' row row' hnew hold hsame
    rcases hchecked with ⟨hnone, -⟩ | ⟨before, -, hupdate⟩
    · have hopen := creationOpen_of_get hold
      rw [← hsame, hguard hnone] at hopen
      cases hopen
    · rw [hnew] at hupdate
      cases hupdate
  have hkey : ∀ {key' row}, write = .insert key' row → key' = key := by
    intro key' row hnew
    rcases hchecked with ⟨-, hinsertion, -⟩ | ⟨before, -, hupdate⟩
    · rw [hnew] at hinsertion
      cases hinsertion
      rfl
    · rw [hnew] at hupdate
      cases hupdate
  constructor
  · exact h.dedicated
  · exact h.resident
  · exact h.owner
  · intro t key' row hw
    rcases hcases hw with ⟨-, hnew⟩ | ⟨-, hold⟩
    · rcases hchecked with ⟨hnone, hinsertion, hroom, hresident⟩ | ⟨before, -, hupdate⟩
      · rw [← hnew] at hinsertion
        cases hinsertion
        refine ⟨rfl, hroom, ?_⟩
        intro hlifecycle
        have hbelow := hresident hlifecycle
        show st.rows.residentOf key.uid < limits.residentMax + st.promoted key.uid
        omega
      · rw [← hnew] at hupdate
        cases hupdate
    · exact h.creation hold
  · intro t u key₁ key₂ row₁ row₂ hw₁ hw₂ hsame
    rcases hcases hw₁ with ⟨hts, hnew₁⟩ | ⟨-, hold₁⟩
    · rcases hcases hw₂ with ⟨hus, -⟩ | ⟨-, hold₂⟩
      · exact hts.trans hus.symm
      · have hkey₁ := hkey hnew₁.symm
        subst hkey₁
        exact absurd hsame (hother hnew₁.symm hold₂)
    · rcases hcases hw₂ with ⟨-, hnew₂⟩ | ⟨-, hold₂⟩
      · have hkey₂ := hkey hnew₂.symm
        subst hkey₂
        exact absurd hsame.symm (hother hnew₂.symm hold₁)
      · exact h.alone hold₁ hold₂ hsame
  · intro t key' row hw
    rcases hcases hw with ⟨-, hnew⟩ | ⟨-, hold⟩
    · rcases hchecked with ⟨-, hinsertion, -⟩ | ⟨before, hbefore, hupdate⟩
      · rw [← hnew] at hinsertion
        cases hinsertion
      · rw [← hnew] at hupdate
        cases hupdate
        show before.uid = key.uid
        exact h.owner hbefore
    · exact h.update hold

/-! ## Commits -/

variable {rows' : SandboxBindings}

theorem ofUser_of_insert (h : rows.insert key row = some rows') (uid : String) :
    rows'.ofUser uid = rows.ofUser uid + if row.uid = uid then 1 else 0 := by
  unfold SandboxBindings.ofUser
  rw [Table.rows_of_insert h, List.countP_append, List.countP_singleton]
  simp

theorem residentOf_of_insert (h : rows.insert key row = some rows') (uid : String) :
    rows'.residentOf uid = rows.residentOf uid +
      if row.uid = uid ∧ row.lifecycle = .resident then 1 else 0 := by
  unfold SandboxBindings.residentOf
  rw [Table.rows_of_insert h, List.countP_append, List.countP_singleton]
  simp

/-- Committing a creation. -/
theorem QuotaInv.insert {limits : SandboxQuotaLimits} {st : State} (h : QuotaInv limits st)
    {s : SessionId} {key : SandboxKey} {row : SandboxBinding}
    (hwrite : st.writes.get s = some (.insert key row)) {rows : SandboxBindings}
    (hinsert : st.rows.insert key row = some rows) :
    QuotaInv limits { st with rows := rows, writes := st.writes.erase s } := by
  obtain ⟨hrowUid, hroom, hresidentRoom⟩ := h.creation hwrite
  constructor
  · intro uid
    have hbefore := h.dedicated uid
    simp only [ofUser_of_insert hinsert]
    split_ifs with huid
    · rw [hrowUid] at huid
      subst huid
      omega
    · omega
  · intro uid
    have hbefore := h.resident uid
    simp only [residentOf_of_insert hinsert]
    split_ifs with huid
    · have hroomLeft := hresidentRoom huid.2
      rw [hrowUid] at huid
      obtain ⟨rfl, -⟩ := huid
      omega
    · omega
  · intro key' row' hget
    simp only [(Table.get_of_insert hinsert).2] at hget
    split_ifs at hget with hkey
    · cases hget
      rw [hrowUid, hkey]
    · exact h.owner hget
  · intro t key' row' hother
    obtain ⟨hts, hold⟩ := get_of_erase hother
    have hne : key.uid ≠ key'.uid := fun hsame => hts (h.alone hold hwrite hsame.symm)
    obtain ⟨huid, hroom', hresident'⟩ := h.creation hold
    refine ⟨huid, ?_, ?_⟩
    · simp only [ofUser_of_insert hinsert, hrowUid, if_neg hne]
      exact hroom'
    · intro hlifecycle
      have hnot : ¬ (key.uid = key'.uid ∧ row.lifecycle = .resident) := fun hboth => hne hboth.1
      simp only [residentOf_of_insert hinsert, hrowUid, if_neg hnot]
      exact hresident' hlifecycle
  · intro t u key₁ key₂ row₁ row₂ hw₁ hw₂
    exact h.alone (get_of_erase hw₁).2 (get_of_erase hw₂).2
  · intro t key' row' hother
    exact h.update (get_of_erase hother).2

section Update

variable {limits : SandboxQuotaLimits} {st : State} (h : QuotaInv limits st) {key : SandboxKey}
  {row : SandboxBinding} (hrow : row.uid = key.uid)

include h hrow

/-- A change of policy keeps the owner of a row. -/
theorem exists_of_update {key' : SandboxKey} {row' : SandboxBinding}
    (hget : (st.rows.modify key fun _ => row).get key' = some row') :
    ∃ before, st.rows.get key' = some before ∧ before.uid = row'.uid ∧
      (key' ≠ key → before = row') := by
  rw [Table.get_modify] at hget
  split_ifs at hget with hkey
  · obtain ⟨before, hbefore, rfl⟩ := Option.map_eq_some_iff.mp hget
    refine ⟨before, hbefore, ?_, fun hne => absurd hkey hne⟩
    rw [h.owner hbefore, hrow, hkey]
  · exact ⟨row', hget, rfl, fun _ => rfl⟩

theorem ofUser_update_le (uid : String) :
    SandboxBindings.ofUser (st.rows.modify key fun _ => row) uid ≤ st.rows.ofUser uid := by
  apply Table.countP_le (p := fun row : SandboxBinding => row.uid == uid)
  intro key' row' hget huid
  obtain ⟨before, hbefore, hsame, -⟩ := exists_of_update h hrow hget
  exact ⟨before, hbefore, by rwa [hsame]⟩

theorem residentOf_apply_le (uid : String) :
    SandboxBindings.residentOf (st.apply (.update key row)).rows uid + st.promoted uid ≤
      st.rows.residentOf uid + (st.apply (.update key row)).promoted uid := by
  simp only [State.apply]
  by_cases hkeep : ∀ before, st.rows.get key = some before → row.uid = uid →
      row.lifecycle = .resident → before.lifecycle = .resident
  · -- no row of the user becomes resident
    have hle : SandboxBindings.residentOf (st.rows.modify key fun _ => row) uid ≤
        st.rows.residentOf uid := by
      apply Table.countP_le
        (p := fun row : SandboxBinding => row.uid == uid && row.lifecycle == .resident)
      intro key' row' hget hresident
      obtain ⟨before, hbefore, hsame, hother⟩ := exists_of_update h hrow hget
      simp only [Bool.and_eq_true, beq_iff_eq] at hresident
      by_cases hkey : key' = key
      · subst hkey
        rw [Table.get_modify_self, hbefore, Option.map_some, Option.some.injEq] at hget
        subst hget
        exact ⟨before, hbefore, by simp [hsame, hresident.1, hkeep before hbefore hresident.1
          hresident.2]⟩
      · rw [hother hkey] at hbefore
        exact ⟨row', hbefore, by simp [hresident]⟩
    have hmono : st.promoted uid ≤ (if (st.rows.get key).any (fun before =>
        before.lifecycle != .resident && row.lifecycle == .resident) = true then
          Function.update st.promoted row.uid (st.promoted row.uid + 1) else st.promoted) uid := by
      split_ifs
      · by_cases huid : uid = row.uid
        · subst huid
          simp
        · simp [Function.update_of_ne huid]
      · exact Nat.le_refl _
    omega
  · push Not at hkeep
    obtain ⟨before, hbefore, huid, hresident, hnot⟩ := hkeep
    have hle : SandboxBindings.residentOf (st.rows.modify key fun _ => row) uid ≤
        st.rows.residentOf uid + 1 := by
      apply Table.countP_le_succ
        (p := fun row : SandboxBinding => row.uid == uid && row.lifecycle == .resident) key
      intro key' row' hkey hget hrow'
      rw [Table.get_modify_of_ne _ hkey] at hget
      exact ⟨row', hget, hrow'⟩
    subst huid
    simp only [hbefore, Option.any_some, bne_iff_ne, ne_eq, hnot, not_false_eq_true, hresident,
      BEq.rfl, Bool.and_true, if_true, Function.update_self]
    omega

end Update

/-- Committing a change of policy. -/
theorem QuotaInv.applyUpdate (h : QuotaInv limits st) (hrow : row.uid = key.uid) :
    QuotaInv limits (st.apply (.update key row)) where
  dedicated := fun uid => (ofUser_update_le h hrow uid).trans (h.dedicated uid)
  resident := by
    intro uid
    have hchange := residentOf_apply_le h hrow uid
    have hbefore := h.resident uid
    omega
  owner := by
    intro key' row' hget
    obtain ⟨before, hbefore, hsame, -⟩ := exists_of_update h hrow hget
    rw [← hsame]
    exact h.owner hbefore
  creation := by
    intro s key' row' hwrite
    obtain ⟨huid, hroom, hresident⟩ := h.creation hwrite
    refine ⟨huid, (ofUser_update_le h hrow key'.uid).trans_lt hroom, ?_⟩
    intro hlifecycle
    have hchange := residentOf_apply_le h hrow key'.uid
    have hbefore := hresident hlifecycle
    omega
  alone := h.alone
  update := h.update

theorem step_quotaInv (limits : SandboxQuotaLimits) (st : State) (e : Event)
    (hguard : CreatesAlone st e) (h : QuotaInv limits st) : QuotaInv limits (step limits st e) := by
  cases e with
  | call s key policy =>
    simp only [step]
    split
    · exact h
    · split
      · exact h
      · rename_i write hwrite
        split
        · exact h
        · rename_i writes hinsert
          exact h.call hguard hwrite hinsert
  | commit s =>
    simp only [step]
    split
    · exact h
    · rename_i write hwrite
      cases write with
      | insert key row =>
        simp only [State.apply]
        split
        · exact h.close s
        · rename_i rows hinsert
          exact h.insert hwrite hinsert
      | update key row => exact (h.applyUpdate (h.update hwrite)).close s
  | abort s => exact h.close s

/-! ## Runs -/

/-- The call would create a binding beyond a limit. -/
def Exceeds (limits : SandboxQuotaLimits) (rows : SandboxBindings) (key : SandboxKey)
    (policy : SandboxPolicy) : Prop :=
  rows.get key = none ∧ (limits.dedicatedMax ≤ rows.ofUser key.uid ∨
    policy.lifecycle = .resident ∧ limits.residentMax ≤ rows.residentOf key.uid)

theorem ensureBinding_of_exceeds (h : Exceeds limits rows key policy) :
    ∃ e, ensureBinding rows limits key policy = .error e := by
  obtain ⟨hnone, hfull⟩ := h
  cases hcall : ensureBinding rows limits key policy with
  | error e => exact ⟨e, rfl⟩
  | ok write =>
    exfalso
    rcases ensureBinding_eq_ok hcall with ⟨-, -, hroom, hresident⟩ | ⟨row, hrow, -⟩
    · rcases hfull with hdedicated | ⟨hlifecycle, hmax⟩
      · omega
      · have hbelow := hresident hlifecycle
        omega
    · rw [hnone] at hrow
      cases hrow

/-- In every run in which no two creations of one user are open at once, a user has no more
bindings than the dedicated limit and no more resident ones than the resident limit and the
policy changes of existing bindings allow; a call that would create a binding beyond a limit
raises and writes nothing. -/
theorem quota_at_creation (limits : SandboxQuotaLimits) (events : List Event)
    (hguard : Transition.Guarded (step limits) CreatesAlone .initial events) :
    let reached := Transition.exec (step limits) .initial events
    (∀ uid, reached.rows.ofUser uid ≤ limits.dedicatedMax) ∧
    (∀ uid, reached.rows.residentOf uid ≤ limits.residentMax + reached.promoted uid) ∧
    ∀ s key policy, Exceeds limits reached.rows key policy →
      (∃ e, ensureBinding reached.rows limits key policy = .error e) ∧
        step limits reached (.call s key policy) = reached := by
  intro reached
  have hinv : QuotaInv limits reached :=
    Transition.exec_invariant_of_guarded (step limits) (step_quotaInv limits)
      (quotaInv_initial limits) hguard
  refine ⟨hinv.dedicated, hinv.resident, ?_⟩
  intro s key policy hexceeds
  obtain ⟨e, he⟩ := ensureBinding_of_exceeds hexceeds
  refine ⟨⟨e, he⟩, ?_⟩
  simp only [step, he]
  split <;> rfl

def defaultLimits : SandboxQuotaLimits where
  dedicatedMax := 3
  residentMax := 1

def firstProject : SandboxKey := ⟨"user", "agent", "project-1"⟩

def secondProject : SandboxKey := ⟨"user", "agent", "project-2"⟩

def persistentPolicy : SandboxPolicy where
  mode := .dedicated
  lifecycle := .persistent

def residentPolicy : SandboxPolicy where
  mode := .dedicated
  lifecycle := .resident

/-- A persistent and a resident sandbox are created, then the policy of the first one changes. -/
def promotion : List Event :=
  [.call 1 firstProject persistentPolicy, .commit 1, .call 2 secondProject residentPolicy,
    .commit 2, .call 3 firstProject residentPolicy, .commit 3]

theorem promotion_counted :
    (Transition.exec (step defaultLimits) .initial promotion).promoted "user" = 1 ∧
    (Transition.exec (step defaultLimits) .initial promotion).rows.residentOf "user" ≤
      defaultLimits.residentMax +
        (Transition.exec (step defaultLimits) .initial promotion).promoted "user" :=
  ⟨by decide +kernel, (quota_at_creation defaultLimits promotion (by decide +kernel)).2.1 "user"⟩

/-- The user has two resident sandboxes, one more than the limit. -/
theorem promotion_exceeds : ¬ ∀ (events : List Event) (uid : String),
      (Transition.exec (step defaultLimits) .initial events).rows.residentOf uid ≤
        defaultLimits.residentMax := by
  intro h
  exact absurd (h promotion "user") (by decide +kernel)

end SandboxQuota

end Yuanlei
