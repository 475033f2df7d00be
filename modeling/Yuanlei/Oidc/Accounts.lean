import Yuanlei.Lib.PyInt
import Yuanlei.Lib.PosixPath
import Yuanlei.Lib.Transition

/-!
# Accounts of OIDC subjects

The model of `oidc_service.py` from the user information of a callback on: how a
subject is looked up, bound, restored and created in the table of users.  A row keeps
which operation has written it; no function of the model reads that.

A standard account has the uid `oidc:` with the subject, a binding is a deleted row
whose uid goes on with a colon and the id of the bound user.  Bindings are searched by a
`LIKE` pattern made of the subject as it is and are decoded from the right.

Main results:

- `findUserByOidcSub`: the lookup of a subject.
- `step`: callbacks, and administrators that create and delete users.
-/

namespace Yuanlei.Oidc

open PosixPath (Text)
open PyText (stripChars)

/-! ## LIKE -/

/-- `text LIKE pattern`; a backslash takes the next character literally. -/
def sqlLike : Text → Text → Bool
  | [], text => text.isEmpty
  | '%' :: pattern, text => text.tails.any (sqlLike pattern)
  | '_' :: pattern, text =>
    match text with
    | [] => false
    | _ :: text => sqlLike pattern text
  | '\\' :: c :: pattern, text =>
    match text with
    | [] => false
    | d :: text => c == d && sqlLike pattern text
  | c :: pattern, text =>
    match text with
    | [] => false
    | d :: text => c == d && sqlLike pattern text

/-! ## The table of users -/

/-- The operation that has written a row. -/
inductive Origin where
  /-- An administrator. -/
  | local
  /-- A callback for this subject. -/
  | created (sub : Text)
  /-- The binding of this subject to the user with this id. -/
  | placeholder (sub : Text) (target : Nat)
  deriving DecidableEq

structure User where
  id : Nat
  uid : Text
  username : Text
  isDeleted : Bool
  origin : Origin
  deriving DecidableEq

/-- The table of users in the order of their ids, with the next id of its sequence. -/
structure Accounts where
  users : List User
  nextId : Nat

/-- What the functions take from outside the table. -/
structure Config where
  useRawUsername : Bool
  autoCreateUser : Bool
  digits : DecimalDigits
  /-- The hexadecimal SHA-256 digest of a text. -/
  sha256Hex : Text → Text

namespace Accounts

variable (accounts : Accounts)

/-- The user with this uid that is deleted or not. -/
def withUid (uid : Text) (deleted : Bool) : Option User :=
  accounts.users.find? fun user => user.uid == uid && user.isDeleted == deleted

/-- The user with the id of a decoded text that is deleted or not. -/
def withId (id : Int) (deleted : Bool) : Option User :=
  accounts.users.find? fun user => (user.id : Int) == id && user.isDeleted == deleted

def usernameFree (username : Text) : Bool :=
  accounts.users.all (·.username != username)

def uidFree (uid : Text) : Bool :=
  accounts.users.all (·.uid != uid)

/-- An insertion; `none` is an `IntegrityError`, which has drawn an id all the same. -/
def insert (uid username : Text) (deleted : Bool) (origin : Origin) : Option User × Accounts :=
  if accounts.uidFree uid && accounts.usernameFree username then
    let user : User := ⟨accounts.nextId, uid, username, deleted, origin⟩
    (some user, ⟨accounts.users ++ [user], accounts.nextId + 1⟩)
  else
    (none, { accounts with nextId := accounts.nextId + 1 })

/-- The rewriting of one row. -/
def modify (id : Nat) (f : User → User) : Accounts :=
  { accounts with users := accounts.users.map fun user => if user.id = id then f user else user }

end Accounts

/-! ## Subjects and uids -/

def standardUid (sub : Text) : Text :=
  "oidc:".toList ++ sub

/-- The uid of a binding. -/
def placeholderUid (sub : Text) (target : Nat) : Text :=
  standardUid sub ++ ':' :: Nat.toDigits 10 target

/-- The username of a binding. -/
def placeholderUsername (config : Config) (sub : Text) : Text :=
  "oidc-binding-".toList ++ (config.sha256Hex sub).take 8

/-- `_extract_oidc_placeholder_target_user_id`. -/
def extractTarget (digits : DecimalDigits) (uid : Text) : Option Int :=
  let value := stripChars uid
  if "oidc:".toList.isPrefixOf value then digits.parseInt (value.rtakeWhile (· != ':'))
  else none

/-- The values of the column `users.id`; the driver raises on others. -/
def inInt4 (n : Int) : Bool :=
  decide (-2147483648 ≤ n) && decide (n < 2147483648)

section Lookups

variable (config : Config) (accounts : Accounts)

/-- The first of these rows whose uid ends in the id of a user that is deleted or not, with that
user; the driver may raise. -/
def firstNamed (deleted : Bool) : List User → Except Unit (Option (User × User))
  | [] => .ok none
  | row :: rest =>
    match extractTarget config.digits row.uid with
    | none => firstNamed deleted rest
    | some target =>
      if inInt4 target then
        match accounts.withId target deleted with
        | some user => .ok (some (row, user))
        | none => firstNamed deleted rest
      else
        .error ()

/-- The rows under the pattern of a subject. -/
def matching (sub : Text) : List User :=
  accounts.users.filter fun user => sqlLike (standardUid sub ++ ":%".toList) user.uid

/-- The search of `find_user_by_oidc_sub` among bindings. -/
def activeBinding (sub : Text) : Except Unit (Option (User × User)) :=
  firstNamed config accounts false (matching accounts sub)

/-- The search of `find_deleted_oidc_user_by_sub` among bindings. -/
def deletedBinding (sub : Text) : Except Unit (Option (User × User)) :=
  firstNamed config accounts true ((matching accounts sub).filter (·.isDeleted))

def findUserByOidcSub (sub : Text) : Except Unit (Option User) :=
  match accounts.withUid (standardUid sub) false with
  | some user => .ok (some user)
  | none => (activeBinding config accounts sub).map fun found => found.map Prod.snd

def findDeletedOidcUserBySub (sub : Text) : Except Unit (Option User) :=
  match accounts.withUid (standardUid sub) true with
  | some user => .ok (some user)
  | none => (deletedBinding config accounts sub).map fun found => found.map Prod.snd

/-- `_create_oidc_binding_placeholder`: a conflict is rolled back and ignored. -/
def createBindingPlaceholder (sub : Text) (target : User) : Accounts :=
  if accounts.uidFree (placeholderUid sub target.id) then
    (accounts.insert (placeholderUid sub target.id) (placeholderUsername config sub) true
      (.placeholder sub target.id)).2
  else
    accounts

/-- `build_unique_oidc_username`; `none` is the HTTP exception. -/
def buildUniqueUsername (preferred sub : Text) : Option Text :=
  let stripped := stripChars preferred
  let base := if stripped = [] then "oidc_".toList ++ sub.take 8 else stripped
  let candidate := base ++ '-' :: (config.sha256Hex sub).take 6
  let indexed := (List.range 98).map fun i => candidate ++ '-' :: Nat.toDigits 10 (i + 2)
  (base :: candidate :: indexed).find? fun username => accounts.usernameFree username

end Lookups

/-! ## User information -/

/-- The claims that `extract_user_info` reads, a missing one as the empty text. -/
structure Claims where
  sub : Text
  /-- The claim that the configuration names for usernames. -/
  usernameClaim : Text
  preferredUsername : Text
  email : Text
  /-- The claim that the configuration names for display names. -/
  nameClaim : Text
  name : Text

structure UserInfo where
  sub : Text
  username : Text
  name : Text

/-- The first text that is not empty, or the last one. -/
def firstText : List Text → Text
  | [] => []
  | [text] => text
  | text :: rest => if text = [] then firstText rest else text

def extractUserInfo (claims : Claims) : UserInfo :=
  let username := firstText [claims.usernameClaim, claims.preferredUsername,
    claims.email.takeWhile (· != '@'), claims.sub.take 20]
  { sub := claims.sub
    username := username
    name := firstText [claims.nameClaim, claims.name, username] }

/-! ## Callbacks -/

inductive Outcome where
  /-- A login code for the user with this id. -/
  | login (id : Nat)
  /-- A redirection to the login page. -/
  | rejected (message : String)
  /-- An exception. -/
  | raised
  deriving DecidableEq

section Callback

variable (config : Config)

/-- The insertions of `create_oidc_user`, one for each remaining attempt. -/
def createAttempts (info : UserInfo) (uid preferred : Text) :
    List Nat → Text → Accounts → Outcome × Accounts
  | [], _, accounts => (.raised, accounts)
  | attempt :: rest, username, accounts =>
    match accounts.insert uid username false (.created info.sub) with
    | (some user, accounts) =>
      (.login user.id,
        if config.useRawUsername then createBindingPlaceholder config accounts info.sub user
        else accounts)
    | (none, accounts) =>
      match findUserByOidcSub config accounts info.sub with
      | .error _ => (.raised, accounts)
      | .ok (some user) => (.login user.id, accounts)
      | .ok none =>
        match buildUniqueUsername config accounts
            (preferred ++ '-' :: Nat.toDigits 10 (attempt + 2)) info.sub with
        | none => (.raised, accounts)
        | some username => createAttempts info uid preferred rest username accounts

/-- The insertion of a new user. -/
def createNewUser (accounts : Accounts) (info : UserInfo) (uid : Text) : Outcome × Accounts :=
  let preferred := if info.name = [] then info.username else info.name
  match buildUniqueUsername config accounts preferred info.sub with
  | none => (.raised, accounts)
  | some username => createAttempts config info uid preferred [0, 1, 2] username accounts

def createOidcUser (accounts : Accounts) (info : UserInfo) : Outcome × Accounts :=
  if config.useRawUsername then
    match accounts.withUid info.username false with
    | some existing =>
      match findUserByOidcSub config accounts info.sub with
      | .error _ => (.raised, accounts)
      | .ok none =>
        (.login existing.id, createBindingPlaceholder config accounts info.sub existing)
      | .ok (some user) =>
        if user.id = existing.id then (.login existing.id, accounts) else (.raised, accounts)
    | none => createNewUser config accounts info info.username
  else
    createNewUser config accounts info (standardUid info.sub)

/-- `restore_deleted_oidc_user`. -/
def restoreDeletedUser (accounts : Accounts) (info : UserInfo) (user : User) : Outcome × Accounts :=
  if "已注销用户-".toList.isPrefixOf user.username then
    match buildUniqueUsername config accounts
        (if info.name = [] then info.username else info.name) info.sub with
    | none => (.raised, accounts)
    | some username =>
      (.login user.id,
        accounts.modify user.id fun row => { row with isDeleted := false, username := username })
  else
    (.login user.id, accounts.modify user.id fun row => { row with isDeleted := false })

/-- A callback without a user. -/
def registerUser (accounts : Accounts) (info : UserInfo) : Outcome × Accounts :=
  if config.autoCreateUser then
    match findDeletedOidcUserBySub config accounts info.sub with
    | .error _ => (.raised, accounts)
    | .ok (some user) => restoreDeletedUser config accounts info user
    | .ok none => createOidcUser config accounts info
  else
    (.rejected "用户未注册，请联系管理员开通账号", accounts)

/-- A callback with the user of the subject under raw usernames. -/
def rawCallback (accounts : Accounts) (info : UserInfo) (userBySub : Option User) :
    Outcome × Accounts :=
  if info.username = [] then
    match userBySub with
    | some user => (.login user.id, accounts)
    | none => registerUser config accounts info
  else
    match userBySub, accounts.withUid info.username false with
    | some user, some byName =>
      if user.id = byName.id then (.login byName.id, accounts)
      else (.rejected "OIDC标识已绑定到其他账号，请联系管理员处理绑定冲突", accounts)
    | some _, none => (.rejected "OIDC标识已绑定到其他账号，请联系管理员处理绑定冲突", accounts)
    | none, some byName => (.login byName.id, createBindingPlaceholder config accounts info.sub byName)
    | none, none =>
      if config.autoCreateUser then registerUser config accounts info
      else (.rejected "用户不存在，请联系管理员开通账号", accounts)

/-- `oidc_callback_handler` behind the token exchange. -/
def callback (accounts : Accounts) (claims : Claims) : Outcome × Accounts :=
  let info := extractUserInfo claims
  if info.sub = [] then
    (.rejected "无法获取用户标识，请返回登录页重试", accounts)
  else
    match findUserByOidcSub config accounts info.sub with
    | .error _ => (.raised, accounts)
    | .ok userBySub =>
      if config.useRawUsername then
        rawCallback config accounts info userBySub
      else
        match userBySub with
        | some user => (.login user.id, accounts)
        | none => registerUser config accounts info

end Callback

/-! ## The system -/

/-- The characters of the uids that administrators may choose or get generated. -/
def isLocalChar (c : Char) : Bool :=
  c.isAlphanum || c == '_'

/-- The uid of a local user: the pattern also lets a final newline through. -/
def isLocalUid (uid : Text) : Bool :=
  let body := if uid.getLast? = some '\n' then uid.dropLast else uid
  !body.isEmpty && body.all isLocalChar

structure System where
  accounts : Accounts
  /-- The answers to callbacks so far, with their subjects. -/
  answers : List (Text × Outcome)

def System.initial : System where
  accounts := ⟨[], 1⟩
  answers := []

inductive Action where
  | callback (claims : Claims)
  /-- An administrator creates a user. -/
  | createLocal (uid username : Text)
  /-- `delete_for_admin`. -/
  | softDelete (id : Nat)

/-- The username of a deleted user. -/
def deletedUsername (id : Nat) : Text :=
  "已注销用户-".toList ++ Nat.toDigits 10 id

/-- A soft deletion of a user who is not deleted. -/
def softDelete (accounts : Accounts) (id : Nat) : Accounts :=
  match accounts.withId id false with
  | none => accounts
  | some _ =>
    if accounts.usernameFree (deletedUsername id) then
      accounts.modify id fun row =>
        { row with isDeleted := true, username := deletedUsername id }
    else
      accounts

def step (config : Config) (σ : System) : Action → System
  | .callback claims =>
    let result := callback config σ.accounts claims
    { accounts := result.2
      answers := σ.answers ++ [((extractUserInfo claims).sub, result.1)] }
  | .createLocal uid username =>
    if isLocalUid uid then
      { σ with accounts := (σ.accounts.insert uid username false .local).2 }
    else
      σ
  | .softDelete id => { σ with accounts := softDelete σ.accounts id }

end Yuanlei.Oidc
