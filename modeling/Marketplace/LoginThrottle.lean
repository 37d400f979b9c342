import Marketplace.Accounts
import Marketplace.FixedWindow
import Mathlib.Logic.Function.Basic

/-! # Login throttling

    `authenticate_login` of `accounts/services.py` and `canonicalize_username` of
    `accounts/validators.py`, called one after the other.  The keyed hash, `str.lower`
    and `django.contrib.auth.authenticate` are parameters.  The table is a map from its
    unique key, and so the `IntegrityError` of a concurrent insert does not occur. -/

namespace Market

/-! ## Usernames -/

/-- `[a-z0-9_]`. -/
def isUsernameChar (c : Char) : Bool :=
  (decide ('a' ≤ c) && decide (c ≤ 'z')) || (decide ('0' ≤ c) && decide (c ≤ '9')) || c == '_'

/-- `USERNAME_PATTERN`. -/
def isCanonicalUsername (s : String) : Bool :=
  decide (4 ≤ s.length) && decide (s.length ≤ 30) && s.toList.all isUsernameChar

/-- `value.strip().lower()`. -/
def canonicalForm (lower : String → String) (value : String) : String := lower (strip value)

/-- `canonicalize_username`, of a text. -/
def canonicalizeUsername (lower : String → String) (value : String) : Except Exn String :=
  if isCanonicalUsername (canonicalForm lower value) then .ok (canonicalForm lower value)
  else .error (.validationError
    "Username must contain 4-30 lowercase ASCII letters, digits, or underscores.")

/-! ## Throttles -/

inductive ThrottleScope where
  | account | ip
  deriving DecidableEq

def ThrottleScope.value : ThrottleScope → String
  | .account => "account"
  | .ip => "ip"

/-- `accounts_login_throttle_identity_unique`. -/
structure ThrottleKey where
  scope : ThrottleScope
  identifierDigest : String
  deriving DecidableEq

structure LoginThrottle where
  windowStartedAt : Time
  failureCount : Nat := 0
  blockedUntil : Option Time := none
  updatedAt : Time

abbrev ThrottleTable := ThrottleKey → Option LoginThrottle

def LOGIN_WINDOW : Time := seconds (15 * 60)
def ACCOUNT_THRESHOLD : Nat := 5
def IP_THRESHOLD : Nat := 20
def ACCOUNT_COOLDOWN : Time := seconds (15 * 60)
def IP_COOLDOWN : Time := seconds (30 * 60)
def THROTTLE_RETENTION : Time := seconds (24 * 3600)

/-- `_opaque_identifier`. -/
def opaqueIdentifier (hmac : String → String) (scope : ThrottleScope) (value : String) :
    String :=
  hmac ("login-throttle:" ++ scope.value ++ ":" ++ value)

/-- `client_ip_identifier`. -/
def clientIpIdentifier (hmac : String → String) (address : String) : String :=
  opaqueIdentifier hmac .ip address

/-- `account_login_identifier`. -/
def accountLoginIdentifier (hmac lower : String → String) (username : String) : String :=
  opaqueIdentifier hmac .account (canonicalForm lower username)

/-- `_locked_throttle`: the row of the key, created when it is not there. -/
def lockedThrottle (k : ThrottleKey) (now createdAt : Time) (t : ThrottleTable) :
    LoginThrottle × ThrottleTable :=
  match t k with
  | some r => (r, t)
  | none =>
      let r : LoginThrottle := { windowStartedAt := now, updatedAt := createdAt }
      (r, Function.update t k (some r))

/-- `_prune_expired_throttles`. -/
def pruneExpiredThrottles (now : Time) (t : ThrottleTable) : ThrottleTable := fun k =>
  (t k).filter fun r => !decide (r.updatedAt + THROTTLE_RETENTION < now)

/-- `_is_blocked`. -/
def isBlocked (r : LoginThrottle) (now : Time) : Bool :=
  match r.blockedUntil with
  | none => false
  | some blockedUntil => decide (now < blockedUntil)

/-- `_record_failure`, saved at `savedAt`. -/
def recordFailure (r : LoginThrottle) (now savedAt : Time) (threshold cooldown : Nat) :
    LoginThrottle :=
  let r := if r.windowStartedAt + LOGIN_WINDOW ≤ now then
      { r with windowStartedAt := now, failureCount := 0, blockedUntil := none }
    else r
  let r := { r with failureCount := r.failureCount + 1 }
  let r := if threshold ≤ r.failureCount then { r with blockedUntil := some (now + cooldown) }
    else r
  { r with updatedAt := savedAt }

/-! ## A call -/

/-- A call of `authenticate_login`: its arguments, what `authenticate` and the status of
    a user are at that moment, and the times at which it saves rows. -/
structure LoginCall where
  now : Time
  address : String
  username : String
  password : String
  authenticate : String → String → Option User
  userStatus : Nat → EffectiveUserStatus
  savedAt : Nat → Time

/-- How a call ends: before the password is looked at, with a wrong one, with the right
    one of somebody who may not log in, or logged in. -/
inductive LoginOutcome where
  | blocked | failed | refused
  | loggedIn (user : User)

/-- What `authenticate_login` returns. -/
def LoginOutcome.user : LoginOutcome → Option User
  | .loggedIn user => some user
  | _ => none

def LoginOutcome.isFailed : LoginOutcome → Bool
  | .failed => true
  | _ => false

def LoginOutcome.isBlocked : LoginOutcome → Bool
  | .blocked => true
  | _ => false

def LoginOutcome.isLoggedIn : LoginOutcome → Bool
  | .loggedIn _ => true
  | _ => false

/-- `f"invalid_{account_digest[:12]}"`. -/
def invalidCandidate (digest : String) : String :=
  "invalid_" ++ String.ofList (digest.toList.take 12)

/-- `"\\x00" in password or not 12 <= len(password) <= 128`. -/
def malformedPassword (password : String) : Bool :=
  password.toList.contains (Char.ofNat 0) || !(decide (12 ≤ password.length) &&
    decide (password.length ≤ 128))

/-- The username and the password that `authenticate` gets. -/
def loginCandidates (lower : String → String) (digest username password : String) :
    String × String :=
  if malformedPassword password then (invalidCandidate digest, "invalid-password-input")
  else
    match canonicalizeUsername lower username with
    | .ok canonical => (canonical, password)
    | .error _ => (invalidCandidate digest, password)

/-- The key of the row that the scope looks at. -/
def LoginCall.key (hmac lower : String → String) (x : LoginCall) : ThrottleScope → ThrottleKey
  | .ip => ⟨.ip, clientIpIdentifier hmac x.address⟩
  | .account => ⟨.account, accountLoginIdentifier hmac lower x.username⟩

/-- The end of `authenticate_login`, where the password is evaluated. -/
def evaluateLogin (hmac lower : String → String) (x : LoginCall) (account ip : LoginThrottle)
    (t : ThrottleTable) : LoginOutcome × ThrottleTable :=
  let accountKey := x.key hmac lower .account
  let ipKey := x.key hmac lower .ip
  let (username, password) :=
    loginCandidates lower accountKey.identifierDigest x.username x.password
  match x.authenticate username password with
  | none =>
      let t := Function.update t accountKey (some
        (recordFailure account x.now (x.savedAt 2) ACCOUNT_THRESHOLD ACCOUNT_COOLDOWN))
      let t := Function.update t ipKey (some
        (recordFailure ip x.now (x.savedAt 3) IP_THRESHOLD IP_COOLDOWN))
      (.failed, t)
  | some user =>
      if effectiveAccountStatus user != .active || x.userStatus user.pk != .active then
        (.refused, t)
      else
        let account : LoginThrottle :=
          { windowStartedAt := x.now, failureCount := 0, blockedUntil := none,
            updatedAt := x.savedAt 2 }
        (.loggedIn user, Function.update t accountKey (some account))

/-- `authenticate_login`. -/
def authenticateLogin (hmac lower : String → String) (x : LoginCall) (t : ThrottleTable) :
    LoginOutcome × ThrottleTable :=
  let t := pruneExpiredThrottles x.now t
  let (ip, t) := lockedThrottle (x.key hmac lower .ip) x.now (x.savedAt 0) t
  if isBlocked ip x.now then (.blocked, t)
  else
    let (account, t) := lockedThrottle (x.key hmac lower .account) x.now (x.savedAt 1) t
    if isBlocked account x.now then (.blocked, t)
    else evaluateLogin hmac lower x account ip t

/-! ## Calls one after the other -/

/-- The table after the calls. -/
def tableAfter (hmac lower : String → String) (t : ThrottleTable) (calls : List LoginCall) :
    ThrottleTable :=
  calls.foldl (fun t x => (authenticateLogin hmac lower x t).2) t

/-- The calls with their outcomes. -/
def logins (hmac lower : String → String) :
    ThrottleTable → List LoginCall → List (LoginCall × LoginOutcome)
  | _, [] => []
  | t, x :: calls =>
      (x, (authenticateLogin hmac lower x t).1) ::
        logins hmac lower (authenticateLogin hmac lower x t).2 calls

/-- The clock does not go back, from call to call and within one. -/
structure Serial (calls : List LoginCall) : Prop where
  ordered : calls.Pairwise fun x y => x.now ≤ y.now
  saved : ∀ x ∈ calls, ∀ k, x.now ≤ x.savedAt k

end Market
