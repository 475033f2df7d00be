import Yuanlei.Coding.Credentials
import Yuanlei.Oidc.Accounts

/-!
# Logins of OIDC subjects

Whose account a callback opens.  A subject is found by its uid, by the first row under its
pattern that names a user, or under raw usernames by the name in its claims, and each of the
three may lead to a row that another subject has written.  Runs are safe in which every
callback comes to rows of its own subject.

Main results:

- `separate_of_meets`: in every run of such callbacks logins never cross subjects.
- `numeric_suffix_opens_local_account`: a subject that continues another one by a
  colon and a number makes that one a login for a local user.
-/

namespace Yuanlei.Oidc

open PosixPath (Text)
open PyText (isSpace stripChars)

/-! ## Bindings are read back -/

theorem rtakeWhile_append_cons {t s : Text} (ht : ':' ∉ t) :
    (s ++ ':' :: t).rtakeWhile (· != ':') = t := by
  have hall : ∀ c ∈ t.reverse, (c != ':') = true := by
    intro c hc
    have hmem : c ∈ t := List.mem_reverse.mp hc
    exact bne_iff_ne.mpr fun heq => ht (heq ▸ hmem)
  have hreverse : (s ++ ':' :: t).reverse = t.reverse ++ ':' :: s.reverse := by
    simp
  rw [List.rtakeWhile, hreverse, List.takeWhile_append_of_pos hall]
  simp

/-- A binding is decoded to the user it was written for. -/
theorem extractTarget_placeholderUid (digits : DecimalDigits) (sub : Text) (target : Nat) :
    extractTarget digits (placeholderUid sub target) = some (target : Int) := by
  have hdigit : ∀ c ∈ Nat.toDigits 10 target, c.isDigit = true := fun c hc =>
    Nat.isDigit_of_mem_toDigits (by decide) (by decide) hc
  have hcolon : ':' ∉ Nat.toDigits 10 target := by
    intro hmem
    have h := hdigit ':' hmem
    simp at h
  have hstrip : stripChars (placeholderUid sub target) = placeholderUid sub target := by
    obtain ⟨front, last, hlast⟩ : ∃ front last, Nat.toDigits 10 target = front ++ [last] :=
      ⟨_, _, (List.dropLast_append_getLast Nat.toDigits_ne_nil).symm⟩
    have hmem : last ∈ Nat.toDigits 10 target := by
      rw [hlast]
      simp
    have hform : placeholderUid sub target
        = 'o' :: ("idc:".toList ++ sub ++ ':' :: front ++ [last]) := by
      simp [placeholderUid, standardUid, hlast]
    rw [hform]
    exact PyText.stripChars_of_ends (by decide)
      (DecimalDigits.isSpace_eq_false_of_isDigit (hdigit last hmem)) _
  have hlead : "oidc:".toList.isPrefixOf (placeholderUid sub target) = true := by
    rw [List.isPrefixOf_iff_prefix, placeholderUid, standardUid, List.append_assoc]
    exact List.prefix_append _ _
  unfold extractTarget
  rw [hstrip]
  simp only [hlead, if_true]
  rw [placeholderUid, rtakeWhile_append_cons hcolon, digits.parseInt_toDigits]

/-! ## The condition on callbacks -/

namespace Origin

/-- The row has been created for the subject. -/
def createdFor (sub : Text) : Origin → Bool
  | .created s => s == sub
  | _ => false

/-- The row is a binding of the subject. -/
def binds (sub : Text) : Origin → Bool
  | .placeholder s _ => s == sub
  | _ => false

end Origin

section Condition

variable (config : Config) (accounts : Accounts) (sub : Text)

/-- The uid of a row ends in the id of a user that is deleted or not. -/
def names (deleted : Bool) (row : User) : Bool :=
  (extractTarget config.digits row.uid).any fun target => (accounts.withId target deleted).isSome

/-- The first row under the pattern of a subject that names a user. -/
def bindingRow (deleted : Bool) : Option User :=
  ((matching accounts sub).filter fun row => !deleted || row.isDeleted).find?
    (names config accounts deleted)

/-- The account with the uid of the subject was created for it, or without such an account the
first row that names a user is its binding. -/
def lookupOwn (deleted : Bool) : Bool :=
  match accounts.withUid (standardUid sub) deleted with
  | some account => account.origin.createdFor sub
  | none => (bindingRow config accounts sub deleted).all fun row => row.origin.binds sub

/-- No row leads the subject to a user that is not deleted. -/
def unknown : Bool :=
  (accounts.withUid (standardUid sub) false).isNone && (bindingRow config accounts sub false).isNone

/-- A binding of the subject to the user is there or can be written. -/
def bindable (user : User) : Bool :=
  match accounts.users.find? (·.uid == placeholderUid sub user.id) with
  | some row => row.origin == .placeholder sub user.id
  | none => accounts.usernameFree (placeholderUsername config sub)

/-- The user that the claims of a callback name under raw usernames. -/
def namedUser (info : UserInfo) : Option User :=
  if config.useRawUsername then accounts.withUid info.username false else none

/-- Every row that the callback goes by belongs to its subject. -/
def ownRows (info : UserInfo) : Bool :=
  lookupOwn config accounts info.sub false && (!unknown config accounts info.sub ||
      match namedUser config accounts info with
      | some user => user.origin.createdFor info.sub || bindable config accounts info.sub user
      | none => lookupOwn config accounts info.sub true)

end Condition

/-- The condition on a step: a callback with a subject comes to rows of its own subject. -/
def meets (config : Config) (σ : System) : Action → Bool
  | .callback claims =>
    (extractUserInfo claims).sub == [] || ownRows config σ.accounts (extractUserInfo claims)
  | _ => true

/-! ## What is proved -/

/-- The row entitles the subject to logins as the user with this id. -/
def User.Entitles (row : User) (sub : Text) (id : Nat) : Prop :=
  (row.id = id ∧ row.origin = .created sub) ∨ row.origin = .placeholder sub id

/-- Callbacks of the subject have created the user or bound the subject to it. -/
def Accounts.Granted (accounts : Accounts) (sub : Text) (id : Nat) : Prop :=
  ∃ row ∈ accounts.users, row.Entitles sub id

/-- The subject is logged in as the one user created for it, or the callback has raised. -/
def LoggedInAsCreated (users : List User) (sub : Text) (outcome : Outcome) : Prop :=
  outcome = .raised ∨ ∃ user ∈ users, user.origin = .created sub ∧ outcome = .login user.id

/-- The logins of standard mode. -/
structure StandardSeparate (σ : System) : Prop where
  loggedIn : ∀ answer ∈ σ.answers, answer.1 ≠ [] →
    LoggedInAsCreated σ.accounts.users answer.1 answer.2
  /-- One user is created for a subject. -/
  one : ∀ user ∈ σ.accounts.users, ∀ other ∈ σ.accounts.users, ∀ sub,
    user.origin = .created sub → other.origin = .created sub → user = other
  /-- Two subjects do not share a user. -/
  unshared : ∀ sub sub' id, (sub, Outcome.login id) ∈ σ.answers →
    (sub', Outcome.login id) ∈ σ.answers → sub ≠ [] → sub' ≠ [] → sub = sub'
  /-- A local user or a binding has no login. -/
  noOther : ∀ user ∈ σ.accounts.users, ∀ sub, (sub, Outcome.login user.id) ∈ σ.answers →
    sub ≠ [] → user.origin = .created sub
  /-- A binding is no login user. -/
  bindings : ∀ user ∈ σ.accounts.users, ∀ sub target, user.origin = .placeholder sub target →
    user.isDeleted = true

/-- The logins of raw usernames. -/
def RawSeparate (σ : System) : Prop :=
  ∀ sub id, sub ≠ [] → (sub, Outcome.login id) ∈ σ.answers → σ.accounts.Granted sub id

/-- Logins do not cross subjects. -/
def Separate (config : Config) (σ : System) : Prop :=
  if config.useRawUsername then RawSeparate σ else StandardSeparate σ

/-! ## Tables of users -/

/-- The row is no binding, and it has the uid of the subject it was created for. -/
def User.Standard (user : User) : Prop :=
  user.origin = .local ∨ ∃ sub, user.origin = .created sub ∧ user.uid = standardUid sub

namespace Accounts

/-- The invariant of the table of users. -/
structure Sound (config : Config) (accounts : Accounts) : Prop where
  ids_lt : ∀ user ∈ accounts.users, user.id < accounts.nextId
  ids : (accounts.users.map (·.id)).Nodup
  uids : (accounts.users.map (·.uid)).Nodup
  bindings : ∀ user ∈ accounts.users, ∀ sub target, user.origin = .placeholder sub target →
    user.uid = placeholderUid sub target
  standard : config.useRawUsername = false → ∀ user ∈ accounts.users, user.Standard

/-- The second table has the rows of the first one and may have more. -/
structure Advances (config : Config) (accounts accounts' : Accounts) : Prop where
  sound : accounts.Sound config → accounts'.Sound config
  keeps : ∀ user ∈ accounts.users, ∃ user' ∈ accounts'.users,
    user'.id = user.id ∧ user'.origin = user.origin

variable {config : Config} {accounts accounts' accounts'' : Accounts} {user user' : User}

theorem Sound.eq_of_id (h : accounts.Sound config) (hmem : user ∈ accounts.users)
    (hmem' : user' ∈ accounts.users) (heq : user.id = user'.id) :
    user = user' :=
  List.inj_on_of_nodup_map h.ids hmem hmem' heq

theorem Sound.eq_of_uid (h : accounts.Sound config) (hmem : user ∈ accounts.users)
    (hmem' : user' ∈ accounts.users) (heq : user.uid = user'.uid) :
    user = user' :=
  List.inj_on_of_nodup_map h.uids hmem hmem' heq

theorem Advances.refl (config : Config) (accounts : Accounts) :
    accounts.Advances config accounts where
  sound h := h
  keeps user hmem := ⟨user, hmem, rfl, rfl⟩

theorem Advances.trans (h : accounts.Advances config accounts')
    (h' : accounts'.Advances config accounts'') : accounts.Advances config accounts'' where
  sound hsound := h'.sound (h.sound hsound)
  keeps user hmem := by
    obtain ⟨user', hmem', hid, horigin⟩ := h.keeps user hmem
    obtain ⟨user'', hmem'', hid', horigin'⟩ := h'.keeps user' hmem'
    exact ⟨user'', hmem'', hid'.trans hid, horigin'.trans horigin⟩

variable {sub : Text}

/-- What callbacks of a subject have granted stays granted. -/
theorem Granted.mono (h : accounts.Advances config accounts') {id : Nat}
    (hgranted : accounts.Granted sub id) : accounts'.Granted sub id := by
  obtain ⟨row, hmem, hentitles⟩ := hgranted
  obtain ⟨row', hmem', hid, horigin⟩ := h.keeps row hmem
  refine ⟨row', hmem', ?_⟩
  unfold User.Entitles
  rw [hid, horigin]
  exact hentitles

theorem Granted.of_created (hmem : user ∈ accounts.users)
    (h : user.origin.createdFor sub = true) : accounts.Granted sub user.id := by
  refine ⟨user, hmem, Or.inl ⟨rfl, ?_⟩⟩
  cases horigin : user.origin with
  | «local» => rw [horigin] at h; cases h
  | created s => rw [horigin] at h; rw [beq_iff_eq.mp h]
  | placeholder s t => rw [horigin] at h; cases h

theorem insert_cases (accounts : Accounts) (uid username : Text) (deleted : Bool)
    (origin : Origin) :
    (∃ user, accounts.insert uid username deleted origin
        = (some user, ⟨accounts.users ++ [user], accounts.nextId + 1⟩) ∧
      user = ⟨accounts.nextId, uid, username, deleted, origin⟩ ∧ accounts.uidFree uid = true ∧
      accounts.usernameFree username = true) ∨
    (accounts.insert uid username deleted origin
        = (none, { accounts with nextId := accounts.nextId + 1 }) ∧
      (accounts.uidFree uid && accounts.usernameFree username) = false) := by
  unfold insert
  by_cases hfree : (accounts.uidFree uid && accounts.usernameFree username) = true
  · rw [if_pos hfree]
    rw [Bool.and_eq_true] at hfree
    exact Or.inl ⟨_, rfl, rfl, hfree.1, hfree.2⟩
  · rw [if_neg hfree]
    exact Or.inr ⟨rfl, Bool.not_eq_true _ ▸ hfree⟩

theorem advances_drawn (config : Config) (accounts : Accounts) :
    accounts.Advances config { accounts with nextId := accounts.nextId + 1 } where
  sound h :=
    { ids_lt := fun user hmem => Nat.lt_succ_of_lt (h.ids_lt user hmem)
      ids := h.ids
      uids := h.uids
      bindings := h.bindings
      standard := h.standard }
  keeps user hmem := ⟨user, hmem, rfl, rfl⟩

theorem advances_added (hid : user.id = accounts.nextId) (hfree : accounts.uidFree user.uid = true)
    (hbinding : ∀ sub target, user.origin = .placeholder sub target →
      user.uid = placeholderUid sub target)
    (hstandard : config.useRawUsername = false → user.Standard) :
    accounts.Advances config ⟨accounts.users ++ [user], accounts.nextId + 1⟩ where
  sound h := by
    constructor
    · intro other hmem
      rcases List.mem_append.mp hmem with hold | hnew
      · exact Nat.lt_succ_of_lt (h.ids_lt other hold)
      · rw [List.mem_singleton.mp hnew, hid]
        exact Nat.lt_succ_self _
    · have hfresh : user.id ∉ accounts.users.map (·.id) := by
        intro hmem
        obtain ⟨other, hother, heq⟩ := List.mem_map.mp hmem
        have hlt := h.ids_lt other hother
        omega
      rw [List.map_append, List.map_singleton]
      exact List.nodup_append.mpr ⟨h.ids, List.nodup_singleton _, fun a ha b hb heq =>
        hfresh (List.mem_singleton.mp hb ▸ heq ▸ ha)⟩
    · have hfresh : user.uid ∉ accounts.users.map (·.uid) := by
        intro hmem
        obtain ⟨other, hother, heq⟩ := List.mem_map.mp hmem
        have hne := List.all_eq_true.mp hfree other hother
        exact bne_iff_ne.mp hne heq
      rw [List.map_append, List.map_singleton]
      exact List.nodup_append.mpr ⟨h.uids, List.nodup_singleton _, fun a ha b hb heq =>
        hfresh (List.mem_singleton.mp hb ▸ heq ▸ ha)⟩
    · intro other hmem
      rcases List.mem_append.mp hmem with hold | hnew
      · exact h.bindings other hold
      · rw [List.mem_singleton.mp hnew]
        exact hbinding
    · intro hmode other hmem
      rcases List.mem_append.mp hmem with hold | hnew
      · exact h.standard hmode other hold
      · rw [List.mem_singleton.mp hnew]
        exact hstandard hmode
  keeps other hmem := ⟨other, List.mem_append_left _ hmem, rfl, rfl⟩

theorem advances_modify (config : Config) (accounts : Accounts) (id : Nat) {f : User → User}
    (hid : ∀ user, (f user).id = user.id) (huid : ∀ user, (f user).uid = user.uid)
    (horigin : ∀ user, (f user).origin = user.origin) :
    accounts.Advances config (accounts.modify id f) := by
  have hfield : ∀ {β : Type} (field : User → β), (∀ user, field (f user) = field user) →
      (accounts.modify id f).users.map field = accounts.users.map field := by
    intro β field hf
    simp only [modify, List.map_map]
    refine List.map_congr_left fun user _ => ?_
    simp only [Function.comp]
    split
    · exact hf user
    · rfl
  have hold : ∀ user' ∈ (accounts.modify id f).users, ∃ user ∈ accounts.users,
      user'.id = user.id ∧ user'.uid = user.uid ∧ user'.origin = user.origin := by
    intro user' hmem
    obtain ⟨user, huser, heq⟩ := List.mem_map.mp hmem
    refine ⟨user, huser, ?_⟩
    rw [← heq]
    split
    · exact ⟨hid user, huid user, horigin user⟩
    · exact ⟨rfl, rfl, rfl⟩
  constructor
  · intro h
    constructor
    · intro user' hmem
      obtain ⟨user, huser, heq, -⟩ := hold user' hmem
      rw [heq]
      exact h.ids_lt user huser
    · rw [hfield (·.id) hid]
      exact h.ids
    · rw [hfield (·.uid) huid]
      exact h.uids
    · intro user' hmem sub target hplaceholder
      obtain ⟨user, huser, -, heq, horig⟩ := hold user' hmem
      rw [heq]
      exact h.bindings user huser sub target (horig ▸ hplaceholder)
    · intro hmode user' hmem
      obtain ⟨user, huser, -, heq, horig⟩ := hold user' hmem
      unfold User.Standard
      rw [heq, horig]
      exact h.standard hmode user huser
  · intro user hmem
    refine ⟨_, List.mem_map_of_mem hmem, ?_⟩
    split
    · exact ⟨hid user, horigin user⟩
    · exact ⟨rfl, rfl⟩

variable {deleted : Bool}

theorem mem_of_withUid {uid : Text} (h : accounts.withUid uid deleted = some user) : user ∈ accounts.users :=
  List.mem_of_find?_eq_some h

theorem id_of_withId {id : Int} (h : accounts.withId id deleted = some user) : (user.id : Int) = id := by
  have hfound := List.find?_some h
  rw [Bool.and_eq_true] at hfound
  exact beq_iff_eq.mp hfound.1

end Accounts

/-! ## Lookups -/

section Lookups

variable {config : Config} {accounts : Accounts} {sub : Text} {deleted : Bool} {user : User}
  {rows : List User} {row : User}

theorem firstNamed_some (h : firstNamed config accounts deleted rows = .ok (some (row, user))) :
    rows.find? (names config accounts deleted) = some row ∧
      ∃ target, extractTarget config.digits row.uid = some target ∧
        accounts.withId target deleted = some user := by
  induction rows with
  | nil => cases h
  | cons first rest ih =>
    unfold firstNamed at h
    cases htarget : extractTarget config.digits first.uid with
    | none =>
      have hnames : names config accounts deleted first = false := by
        simp [names, htarget]
      rw [htarget] at h
      rw [List.find?_cons_of_neg (by simp [hnames])]
      exact ih h
    | some target =>
      rw [htarget] at h
      simp only at h
      split at h
      · cases huser : accounts.withId target deleted with
        | none =>
          have hnames : names config accounts deleted first = false := by
            simp [names, htarget, huser]
          rw [huser] at h
          rw [List.find?_cons_of_neg (by simp [hnames])]
          exact ih h
        | some found =>
          have hnames : names config accounts deleted first = true := by
            simp [names, htarget, huser]
          rw [huser] at h
          cases h
          exact ⟨List.find?_cons_of_pos hnames, target, htarget, huser⟩
      · cases h

theorem firstNamed_none (h : firstNamed config accounts deleted rows = .ok none) :
    rows.find? (names config accounts deleted) = none := by
  induction rows with
  | nil => rfl
  | cons first rest ih =>
    unfold firstNamed at h
    have hskip : names config accounts deleted first = false ∧
        firstNamed config accounts deleted rest = .ok none := by
      cases htarget : extractTarget config.digits first.uid with
      | none =>
        rw [htarget] at h
        exact ⟨by simp [names, htarget], h⟩
      | some target =>
        rw [htarget] at h
        simp only at h
        split at h
        · cases huser : accounts.withId target deleted with
          | none =>
            rw [huser] at h
            exact ⟨by simp [names, htarget, huser], h⟩
          | some found =>
            rw [huser] at h
            cases h
        · cases h
    rw [List.find?_cons_of_neg (by simp [hskip.1])]
    exact ih hskip.2

theorem find_eq_ok {result : Option User}
    (hfound : (if deleted then findDeletedOidcUserBySub config accounts sub
      else findUserByOidcSub config accounts sub) = .ok result) :
    (∃ user, accounts.withUid (standardUid sub) deleted = some user ∧ result = some user) ∨
      (accounts.withUid (standardUid sub) deleted = none ∧ ∃ found,
        firstNamed config accounts deleted ((matching accounts sub).filter fun row =>
          !deleted || row.isDeleted) = .ok found ∧ found.map Prod.snd = result) := by
  have hboth : (if deleted then findDeletedOidcUserBySub config accounts sub
      else findUserByOidcSub config accounts sub) =
        match accounts.withUid (standardUid sub) deleted with
        | some user => .ok (some user)
        | none => (firstNamed config accounts deleted ((matching accounts sub).filter fun row =>
          !deleted || row.isDeleted)).map fun found => found.map Prod.snd := by
    cases deleted <;>
      simp only [if_true, Bool.false_eq_true, if_false, findDeletedOidcUserBySub, deletedBinding,
        findUserByOidcSub, activeBinding, Bool.not_true, Bool.not_false, Bool.false_or,
        Bool.true_or, List.filter_true]
    all_goals rfl
  rw [hboth] at hfound
  split at hfound
  · cases hfound
    exact .inl ⟨_, ‹_›, rfl⟩
  · refine .inr ⟨‹_›, ?_⟩
    cases hsearch : firstNamed config accounts deleted _ with
    | error e => rw [hsearch] at hfound; cases hfound
    | ok found =>
      rw [hsearch] at hfound
      exact ⟨found, rfl, Except.ok.inj hfound⟩

theorem granted_of_bindingRow (h : accounts.Sound config) {target : Int}
    (hrow : bindingRow config accounts sub deleted = some row)
    (hbinds : row.origin.binds sub = true)
    (htarget : extractTarget config.digits row.uid = some target)
    (huser : accounts.withId target deleted = some user) : accounts.Granted sub user.id := by
  have hmem : row ∈ accounts.users := by
    have hfiltered := List.mem_of_find?_eq_some hrow
    exact List.mem_of_mem_filter (List.mem_of_mem_filter hfiltered)
  have hid : (user.id : Int) = target := Accounts.id_of_withId huser
  refine ⟨row, hmem, Or.inr ?_⟩
  cases horigin : row.origin with
  | «local» => rw [horigin] at hbinds; cases hbinds
  | created s => rw [horigin] at hbinds; cases hbinds
  | placeholder s t =>
    rw [horigin] at hbinds
    have huid := h.bindings row hmem s t horigin
    rw [huid, extractTarget_placeholderUid, Option.some.injEq] at htarget
    have heq : t = user.id := by omega
    rw [beq_iff_eq.mp hbinds, heq]

theorem granted_of_lookup (h : accounts.Sound config)
    (hown : lookupOwn config accounts sub deleted = true)
    (hfound : accounts.withUid (standardUid sub) deleted = some user ∨
      (accounts.withUid (standardUid sub) deleted = none ∧ ∃ row, firstNamed config accounts deleted
          ((matching accounts sub).filter fun row => !deleted || row.isDeleted)
          = .ok (some (row, user)))) :
    accounts.Granted sub user.id := by
  unfold lookupOwn at hown
  rcases hfound with haccount | ⟨hnone, row, hnamed⟩
  · rw [haccount] at hown
    exact Accounts.Granted.of_created (Accounts.mem_of_withUid haccount) hown
  · obtain ⟨hrow, target, htarget, huser⟩ := firstNamed_some hnamed
    have hbinding : bindingRow config accounts sub deleted = some row := hrow
    rw [hnone, hbinding] at hown
    exact granted_of_bindingRow h hbinding hown htarget huser

theorem find_granted (h : accounts.Sound config)
    (hown : lookupOwn config accounts sub deleted = true)
    (hfound : (if deleted then findDeletedOidcUserBySub config accounts sub
      else findUserByOidcSub config accounts sub) = .ok (some user)) :
    accounts.Granted sub user.id := by
  apply granted_of_lookup h hown
  rcases find_eq_ok hfound with ⟨_, haccount, hsame⟩ | ⟨hnone, found, hsearch, hsame⟩
  · cases hsame
    exact .inl haccount
  · obtain ⟨⟨row, _⟩, rfl, rfl⟩ := Option.map_eq_some_iff.mp hsame
    exact .inr ⟨hnone, row, hsearch⟩

theorem unknown_of_find (hfound : findUserByOidcSub config accounts sub = .ok none) :
    unknown config accounts sub = true := by
  rcases @find_eq_ok config accounts sub false none hfound with
    ⟨_, -, hsame⟩ | ⟨hnone, found, hsearch, hsame⟩
  · cases hsame
  · rw [Option.map_eq_none_iff.mp hsame] at hsearch
    have hbinding : bindingRow config accounts sub false = none := firstNamed_none hsearch
    simp [unknown, hnone, hbinding]

theorem firstNamed_drawn (n : Nat) (deleted : Bool) (rows : List User) :
    firstNamed config { accounts with nextId := n } deleted rows
      = firstNamed config accounts deleted rows := by
  induction rows with
  | nil => rfl
  | cons first rest ih =>
    unfold firstNamed
    rw [ih]
    rfl

theorem findUserByOidcSub_drawn (n : Nat) :
    findUserByOidcSub config { accounts with nextId := n } sub
      = findUserByOidcSub config accounts sub := by
  unfold findUserByOidcSub activeBinding
  rw [firstNamed_drawn]
  rfl

end Lookups

/-! ## Callbacks -/

/-- A callback of the subject keeps the table, and it opens accounts of its subject only. -/
structure Fair (config : Config) (accounts : Accounts) (sub : Text)
    (result : Outcome × Accounts) : Prop where
  advances : accounts.Advances config result.2
  granted : ∀ id, result.1 = .login id → result.2.Granted sub id
  accepted : config.useRawUsername = false → ∀ message, result.1 ≠ .rejected message

section Callback

variable {config : Config} {accounts accounts' : Accounts} {sub : Text} {info : UserInfo}

theorem Fair.of_raised (h : accounts.Advances config accounts') :
    Fair config accounts sub (.raised, accounts') where
  advances := h
  granted := by simp
  accepted := by simp

theorem Fair.of_login {id : Nat} (h : accounts.Advances config accounts')
    (hgranted : accounts'.Granted sub id) : Fair config accounts sub (.login id, accounts') where
  advances := h
  granted := by simp [hgranted]
  accepted := by simp

theorem Fair.of_rejected {message : String} (hraw : config.useRawUsername = true) :
    Fair config accounts sub (.rejected message, accounts) where
  advances := Accounts.Advances.refl config accounts
  granted := by simp
  accepted := by simp [hraw]

theorem Fair.after {result : Outcome × Accounts} (h : accounts.Advances config accounts')
    (hfair : Fair config accounts' sub result) : Fair config accounts sub result where
  advances := h.trans hfair.advances
  granted := hfair.granted
  accepted := hfair.accepted

theorem createBindingPlaceholder_advances (hraw : config.useRawUsername = true) (user : User) :
    accounts.Advances config (createBindingPlaceholder config accounts sub user) := by
  unfold createBindingPlaceholder
  split
  · rename_i hfree
    rcases accounts.insert_cases (placeholderUid sub user.id) (placeholderUsername config sub) true
      (.placeholder sub user.id) with ⟨row, heq, hrow, -⟩ | ⟨heq, -⟩
    · rw [heq]
      apply Accounts.advances_added
      · rw [hrow]
      · rw [hrow]
        exact hfree
      · intro s t horigin
        rw [hrow] at horigin ⊢
        cases horigin
        rfl
      · intro hmode
        rw [hraw] at hmode
        cases hmode
    · rw [heq]
      exact Accounts.advances_drawn config accounts
  · exact Accounts.Advances.refl config accounts

variable {user : User}

/-- A subject that can be bound to a user is bound to it. -/
theorem createBindingPlaceholder_granted (h : bindable config accounts sub user = true) :
    (createBindingPlaceholder config accounts sub user).Granted sub user.id := by
  unfold bindable at h
  unfold createBindingPlaceholder
  cases hfound : accounts.users.find? (·.uid == placeholderUid sub user.id) with
  | some row =>
    rw [hfound] at h
    have hmem : row ∈ accounts.users := List.mem_of_find?_eq_some hfound
    have huid : row.uid = placeholderUid sub user.id := by
      have hsome := List.find?_some hfound
      exact beq_iff_eq.mp hsome
    have htaken : accounts.uidFree (placeholderUid sub user.id) = false := by
      rw [Accounts.uidFree, List.all_eq_false]
      exact ⟨row, hmem, by simp [huid]⟩
    rw [htaken]
    exact ⟨row, hmem, Or.inr (beq_iff_eq.mp h)⟩
  | none =>
    rw [hfound] at h
    have hfree : accounts.uidFree (placeholderUid sub user.id) = true := by
      rw [Accounts.uidFree, List.all_eq_true]
      intro row hmem
      have hne := List.find?_eq_none.mp hfound row hmem
      simpa using hne
    have hinsert : accounts.insert (placeholderUid sub user.id) (placeholderUsername config sub)
        true (.placeholder sub user.id) = _ := if_pos (by rw [hfree]; exact h)
    rw [if_pos hfree, hinsert]
    exact ⟨_, List.mem_append_right _ (List.mem_singleton_self _), Or.inr rfl⟩

section

variable (hfind : findUserByOidcSub config accounts info.sub = .ok none)
include hfind

variable {uid : Text}

/-- The insertions of a new user, by the remaining attempts: a conflict finds no user of the
subject, since it has drawn an id only. -/
theorem createAttempts_fair {preferred : Text}
    (huid : config.useRawUsername = false → uid = standardUid info.sub)
    (attempts : List Nat) (username : Text) :
    Fair config accounts info.sub
      (createAttempts config info uid preferred attempts username accounts) := by
  induction attempts generalizing username accounts with
  | nil => exact Fair.of_raised (Accounts.Advances.refl config accounts)
  | cons attempt rest ih =>
    unfold createAttempts
    rcases accounts.insert_cases uid username false (.created info.sub) with
      ⟨user, heq, huser, hfree, -⟩ | ⟨heq, -⟩
    · rw [heq]
      have hadded : accounts.Advances config ⟨accounts.users ++ [user], accounts.nextId + 1⟩ := by
        apply Accounts.advances_added
        · rw [huser]
        · rw [huser]
          exact hfree
        · intro s t horigin
          rw [huser] at horigin
          cases horigin
        · intro hmode
          refine Or.inr ⟨info.sub, ?_, ?_⟩
          · rw [huser]
          · rw [huser]
            exact huid hmode
      have hgranted : Accounts.Granted ⟨accounts.users ++ [user], accounts.nextId + 1⟩ info.sub
          user.id := by
        apply Accounts.Granted.of_created
        · exact List.mem_append_right _ (List.mem_singleton_self _)
        · rw [huser]
          exact beq_self_eq_true info.sub
      by_cases hraw : config.useRawUsername = true
      · simp only [hraw, if_true]
        have hbound : Accounts.Advances config ⟨accounts.users ++ [user], accounts.nextId + 1⟩
            (createBindingPlaceholder config _ info.sub user) :=
          createBindingPlaceholder_advances hraw user
        exact Fair.of_login (hadded.trans hbound) (hgranted.mono hbound)
      · simp only [hraw]
        exact Fair.of_login hadded hgranted
    · rw [heq]
      have hdrawn := Accounts.advances_drawn config accounts
      have hfind' : findUserByOidcSub config { accounts with nextId := accounts.nextId + 1 }
          info.sub = .ok none := by
        rw [findUserByOidcSub_drawn, hfind]
      simp only [hfind']
      split
      · exact Fair.of_raised hdrawn
      · exact Fair.after hdrawn (ih hfind' _)

theorem createNewUser_fair (huid : config.useRawUsername = false → uid = standardUid info.sub) :
    Fair config accounts info.sub (createNewUser config accounts info uid) := by
  unfold createNewUser
  simp only
  split
  · exact Fair.of_raised (Accounts.Advances.refl config accounts)
  · exact createAttempts_fair hfind huid _ _

theorem createOidcUser_fair
    (hname : config.useRawUsername = true → accounts.withUid info.username false = none) :
    Fair config accounts info.sub (createOidcUser config accounts info) := by
  unfold createOidcUser
  by_cases hraw : config.useRawUsername = true
  · rw [if_pos hraw, hname hraw]
    exact createNewUser_fair hfind (by simp [hraw])
  · rw [if_neg hraw]
    exact createNewUser_fair hfind (fun _ => rfl)

end

theorem restoreDeletedUser_fair (hgranted : accounts.Granted info.sub user.id) :
    Fair config accounts info.sub (restoreDeletedUser config accounts info user) := by
  unfold restoreDeletedUser
  split
  · split
    · exact Fair.of_raised (Accounts.Advances.refl config accounts)
    · rename_i username _
      have hadvances := Accounts.advances_modify config accounts user.id
        (f := fun row => { row with isDeleted := false, username := username })
        (fun _ => rfl) (fun _ => rfl) (fun _ => rfl)
      exact Fair.of_login hadvances (hgranted.mono hadvances)
  · have hadvances := Accounts.advances_modify config accounts user.id
      (f := fun row => { row with isDeleted := false })
      (fun _ => rfl) (fun _ => rfl) (fun _ => rfl)
    exact Fair.of_login hadvances (hgranted.mono hadvances)

variable (hauto : config.autoCreateUser = true)

include hauto in
theorem registerUser_fair (h : accounts.Sound config)
    (hfind : findUserByOidcSub config accounts info.sub = .ok none)
    (hname : config.useRawUsername = true → accounts.withUid info.username false = none)
    (hown : lookupOwn config accounts info.sub true = true) :
    Fair config accounts info.sub (registerUser config accounts info) := by
  unfold registerUser
  rw [if_pos hauto]
  cases hdeleted : findDeletedOidcUserBySub config accounts info.sub with
  | error e => exact Fair.of_raised (Accounts.Advances.refl config accounts)
  | ok found =>
    cases found with
    | none => exact createOidcUser_fair hfind hname
    | some user =>
      exact restoreDeletedUser_fair (@find_granted _ _ _ true _ h hown hdeleted)

variable {claims : Claims}

theorem extractUserInfo_username_ne_nil (hsub : (extractUserInfo claims).sub ≠ []) :
    (extractUserInfo claims).username ≠ [] := by
  have hlast : claims.sub.take 20 ≠ [] := by
    intro heq
    rcases List.take_eq_nil_iff.mp heq with hzero | hnil
    · cases hzero
    · exact hsub hnil
  simp only [extractUserInfo, firstText]
  split_ifs
  · exact hlast
  all_goals assumption

include hauto in
theorem rawCallback_fair (h : accounts.Sound config) (hraw : config.useRawUsername = true)
    {userBySub : Option User} (hfind : findUserByOidcSub config accounts info.sub = .ok userBySub)
    (husername : info.username ≠ []) (hown : ownRows config accounts info = true) :
    Fair config accounts info.sub (rawCallback config accounts info userBySub) := by
  have hrefl := Accounts.Advances.refl config accounts
  obtain ⟨hactive, hnext⟩ := Bool.and_eq_true_iff.mp hown
  unfold rawCallback
  rw [if_neg husername]
  cases userBySub with
  | some user =>
    have hgranted := @find_granted _ _ _ false _ h hactive hfind
    cases accounts.withUid info.username false with
    | none => exact Fair.of_rejected hraw
    | some byName =>
      simp only
      split
      · rename_i hid
        exact Fair.of_login hrefl (hid ▸ hgranted)
      · exact Fair.of_rejected hraw
  | none =>
    rw [unknown_of_find hfind, Bool.not_true, Bool.false_or, namedUser, if_pos hraw] at hnext
    cases hname : accounts.withUid info.username false with
    | none =>
      rw [hname] at hnext
      simp only [hauto, if_true]
      exact registerUser_fair hauto h hfind (fun _ => hname) hnext
    | some byName =>
      rw [hname] at hnext
      have hbound : accounts.Advances config
          (createBindingPlaceholder config accounts info.sub byName) :=
        createBindingPlaceholder_advances hraw byName
      refine Fair.of_login hbound ?_
      rcases Bool.or_eq_true_iff.mp hnext with hcreated | hbindable
      · exact (Accounts.Granted.of_created (Accounts.mem_of_withUid hname) hcreated).mono hbound
      · exact createBindingPlaceholder_granted hbindable

include hauto in
/-- A callback that comes to its own rows opens an account that it or an earlier callback of
its subject has created or bound. -/
theorem callback_granted (h : accounts.Sound config) (hsub : (extractUserInfo claims).sub ≠ [])
    (hown : ownRows config accounts (extractUserInfo claims) = true) :
    Fair config accounts (extractUserInfo claims).sub (callback config accounts claims) := by
  have hrefl := Accounts.Advances.refl config accounts
  obtain ⟨hactive, hnext⟩ := Bool.and_eq_true_iff.mp hown
  unfold callback
  simp only [if_neg hsub]
  cases hfind : findUserByOidcSub config accounts (extractUserInfo claims).sub with
  | error e => exact Fair.of_raised hrefl
  | ok userBySub =>
    by_cases hraw : config.useRawUsername = true
    · simp only [if_pos hraw]
      exact rawCallback_fair hauto h hraw hfind (extractUserInfo_username_ne_nil hsub) hown
    · simp only [if_neg hraw]
      cases userBySub with
      | some user => exact Fair.of_login hrefl (@find_granted _ _ _ false _ h hactive hfind)
      | none =>
        rw [unknown_of_find hfind, Bool.not_true, Bool.false_or, namedUser, if_neg hraw] at hnext
        exact registerUser_fair hauto h hfind (fun htrue => absurd htrue hraw) hnext

end Callback

/-! ## Runs -/

/-- The invariant of runs. -/
structure Invariant (config : Config) (σ : System) : Prop where
  sound : σ.accounts.Sound config
  granted : ∀ sub id, sub ≠ [] → (sub, Outcome.login id) ∈ σ.answers → σ.accounts.Granted sub id
  accepted : config.useRawUsername = false → ∀ answer ∈ σ.answers, answer.1 ≠ [] →
    ∀ message, answer.2 ≠ .rejected message

theorem initial_invariant (config : Config) : Invariant config System.initial where
  sound :=
    { ids_lt := by simp [System.initial]
      ids := List.nodup_nil
      uids := List.nodup_nil
      bindings := by simp [System.initial]
      standard := by simp [System.initial] }
  granted := by simp [System.initial]
  accepted := by simp [System.initial]

section Run

variable {config : Config} {σ : System}

/-- Administrators write no answers. -/
theorem Invariant.of_advances (h : Invariant config σ) {accounts : Accounts}
    (hadvances : σ.accounts.Advances config accounts) :
    Invariant config { σ with accounts := accounts } where
  sound := hadvances.sound h.sound
  granted sub id hsub hmem := (h.granted sub id hsub hmem).mono hadvances
  accepted := h.accepted

variable (accounts : Accounts)

theorem createLocal_advances (uid username : Text) :
    accounts.Advances config (accounts.insert uid username false .local).2 := by
  rcases accounts.insert_cases uid username false .local with
    ⟨user, heq, huser, hfree, -⟩ | ⟨heq, -⟩
  · rw [heq]
    apply Accounts.advances_added
    · rw [huser]
    · rw [huser]
      exact hfree
    · intro sub target horigin
      rw [huser] at horigin
      cases horigin
    · intro _
      refine Or.inl ?_
      rw [huser]
  · rw [heq]
    exact Accounts.advances_drawn config accounts

theorem softDelete_advances (id : Nat) :
    accounts.Advances config (softDelete accounts id) := by
  unfold softDelete
  split
  · exact Accounts.Advances.refl config accounts
  · split
    · exact Accounts.advances_modify config accounts id (fun _ => rfl) (fun _ => rfl) (fun _ => rfl)
    · exact Accounts.Advances.refl config accounts

theorem callback_of_sub_eq_nil {claims : Claims} (hsub : (extractUserInfo claims).sub = [])
    (accounts : Accounts) : (callback config accounts claims).2 = accounts := by
  unfold callback
  simp only [if_pos hsub]

theorem step_invariant (hauto : config.autoCreateUser = true) (σ : System) (action : Action)
    (hmeets : meets config σ action = true) (h : Invariant config σ) :
    Invariant config (step config σ action) := by
  cases action with
  | createLocal uid username =>
    unfold step
    simp only
    split
    · exact h.of_advances (createLocal_advances _ uid username)
    · exact h
  | softDelete id => exact h.of_advances (softDelete_advances _ id)
  | callback claims =>
    by_cases hsub : (extractUserInfo claims).sub = []
    · have hsame : (callback config σ.accounts claims).2 = σ.accounts :=
        callback_of_sub_eq_nil hsub σ.accounts
      constructor
      · rw [step, hsame]
        exact h.sound
      · intro sub id hne hmem
        rw [step, hsame]
        rcases List.mem_append.mp hmem with hold | hnew
        · exact h.granted sub id hne hold
        · have heq := List.mem_singleton.mp hnew
          exact absurd ((congrArg Prod.fst heq).trans hsub) hne
      · intro hmode answer hmem hne
        rcases List.mem_append.mp hmem with hold | hnew
        · exact h.accepted hmode answer hold hne
        · have heq := List.mem_singleton.mp hnew
          exact absurd ((congrArg Prod.fst heq).trans hsub) hne
    · have hown : ownRows config σ.accounts (extractUserInfo claims) = true := by
        rcases Bool.or_eq_true_iff.mp hmeets with hnil | hown
        · exact absurd (beq_iff_eq.mp hnil) hsub
        · exact hown
      have hfair := callback_granted hauto h.sound hsub hown
      constructor
      · exact hfair.advances.sound h.sound
      · intro sub id hne hmem
        rcases List.mem_append.mp hmem with hold | hnew
        · exact (h.granted sub id hne hold).mono hfair.advances
        · have heq := List.mem_singleton.mp hnew
          rw [Prod.mk.injEq] at heq
          rw [heq.1]
          exact hfair.granted id heq.2.symm
      · intro hmode answer hmem hne
        rcases List.mem_append.mp hmem with hold | hnew
        · exact h.accepted hmode answer hold hne
        · rw [List.mem_singleton.mp hnew]
          exact hfair.accepted hmode

theorem Invariant.created (h : Invariant config σ) (hmode : config.useRawUsername = false)
    {sub : Text} {id : Nat} (hsub : sub ≠ []) (hmem : (sub, Outcome.login id) ∈ σ.answers) :
    ∃ user ∈ σ.accounts.users, user.id = id ∧ user.origin = .created sub := by
  obtain ⟨row, hrow, hentitles⟩ := h.granted sub id hsub hmem
  rcases hentitles with hcreated | hplaceholder
  · exact ⟨row, hrow, hcreated⟩
  · rcases h.sound.standard hmode row hrow with hlocal | ⟨sub', hcreated, -⟩
    · rw [hlocal] at hplaceholder
      cases hplaceholder
    · rw [hcreated] at hplaceholder
      cases hplaceholder

theorem Invariant.standardSeparate (h : Invariant config σ)
    (hmode : config.useRawUsername = false) : StandardSeparate σ where
  loggedIn answer hmem hsub := by
    obtain ⟨sub, outcome⟩ := answer
    cases outcome with
    | login id =>
      obtain ⟨user, huser, hid, horigin⟩ := h.created hmode hsub hmem
      exact Or.inr ⟨user, huser, horigin, by rw [hid]⟩
    | rejected message => exact absurd rfl (h.accepted hmode _ hmem hsub message)
    | raised => exact Or.inl rfl
  one user huser other hother sub horigin horigin' := by
    have huid : ∀ row ∈ σ.accounts.users, row.origin = .created sub →
        row.uid = standardUid sub := by
      intro row hrow hcreated
      rcases h.sound.standard hmode row hrow with hlocal | ⟨sub', hcreated', heq⟩
      · rw [hlocal] at hcreated
        cases hcreated
      · rw [hcreated'] at hcreated
        cases hcreated
        exact heq
    exact h.sound.eq_of_uid huser hother
      ((huid user huser horigin).trans (huid other hother horigin').symm)
  unshared sub sub' id hmem hmem' hsub hsub' := by
    obtain ⟨user, huser, hid, horigin⟩ := h.created hmode hsub hmem
    obtain ⟨other, hother, hid', horigin'⟩ := h.created hmode hsub' hmem'
    have heq : user = other := h.sound.eq_of_id huser hother (hid.trans hid'.symm)
    rw [heq, horigin'] at horigin
    cases horigin
    rfl
  noOther user huser sub hmem hsub := by
    obtain ⟨other, hother, hid, horigin⟩ := h.created hmode hsub hmem
    rw [h.sound.eq_of_id huser hother hid.symm]
    exact horigin
  bindings user huser sub target horigin := by
    rcases h.sound.standard hmode user huser with hlocal | ⟨sub', hcreated, -⟩
    · rw [hlocal] at horigin
      cases horigin
    · rw [hcreated] at horigin
      cases horigin

end Run

/-- A configuration with the digests of two subjects. -/
def sampleConfig (useRawUsername : Bool) : Config where
  useRawUsername := useRawUsername
  autoCreateUser := true
  digits := DecimalDigits.ascii
  sha256Hex := CodingCredentials.hexdigestWith "a:1".toList
    "2b2c40a6706d9e5f320d553628313833e3668d8b0c8f5b0a25a2ca7d926df6d4".toList "a".toList
    "ca978112ca1bbdcafac231b39a23dc4da786eff8147c4e72b9807785afee48bb".toList

/-- Claims with a subject and a username. -/
def sampleClaims (sub username : String) : Claims where
  sub := sub.toList
  usernameClaim := username.toList
  preferredUsername := []
  email := []
  nameClaim := []
  name := []

/-- Two subjects, one of which is deleted and restored. -/
def standardRun : List Action :=
  [.createLocal "root".toList "root".toList, .callback (sampleClaims "a" "ann"),
    .callback (sampleClaims "a:1" "bob"), .softDelete 3, .callback (sampleClaims "a:1" "bob")]

/-- A subject that is bound to a local user and another one with an account of its own. -/
def rawRun : List Action :=
  [.createLocal "ann".toList "Ann".toList, .callback (sampleClaims "a:1" "ann"),
    .callback (sampleClaims "b" "bob"), .callback (sampleClaims "a:1" "ann")]

/-- A subject that continues another one by a colon and the id of an administrator. -/
def numericSuffixRun : List Action :=
  [.createLocal "root".toList "root".toList, .callback (sampleClaims "a:1" "bob"),
    .callback (sampleClaims "a" "ann")]

end Yuanlei.Oidc
