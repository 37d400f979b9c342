import Marketplace.Revocation

/-! # Sessions of accounts

    The part of `AccountSessionService` that every authenticated request runs through,
    and `enforce_http_user_status`, which the status middleware asks before any view.
    A session has a key, and says whose it is and in which epoch it was made; a row of
    `UserSessionIndex` says of the key whether it was revoked. -/

namespace Market

open TxnProgram

/-- `SESSION_INDEX_TOUCH_INTERVAL`. -/
def SESSION_INDEX_TOUCH_INTERVAL : Time := seconds (5 * 60)

/-- A request that carries a session: the user and the hash of the session, which
    `authentic` compares with the password, and its epoch where that is an integer. -/
structure SessionRequest where
  user : Nat
  authentic : User → Bool
  sessionKey : String
  sessionEpoch : Option Int

/-- The row of the session index, of `UserSessionIndex.objects.get(session_key=...)`. -/
def sessionOf (sessionKey : String) (s : Store) : Option UserSessionIndex :=
  s.sessionIndex.find? (·.sessionKey == sessionKey)

/-- The row was last touched an interval ago: it is touched again, unless another
    request did so meanwhile. -/
def touchSession (row : UserSessionIndex) : M Unit := do
  let now ← timezoneNow
  if row.lastSeenAt + SESSION_INDEX_TOUCH_INTERVAL ≤ now then atomic do
    let rows ← fetch fun s => (s.sessionIndex.filter fun r =>
      r.pk == row.pk && decide (r.lastSeenAt + SESSION_INDEX_TOUCH_INTERVAL ≤ now)).map (·.pk)
    updateRows .sessionIndex rows
      (updateSessions rows fun r => { r with lastSeenAt := now })
  else return ()

/-- `AccountSessionService.validate_request`. -/
def validateRequest (r : SessionRequest) (user : User) : M Bool := do
  if r.sessionEpoch != some (user.authEpoch : Int) then return false
  else do
    let found ← fetch (sessionOf r.sessionKey)
    match found with
    | none =>
        -- a session of before the index: it is indexed now
        Prog.tryCatch (do let _ ← sessionStart user r.sessionKey; return true) fun
          | .runtimeError _ => return false
          | e => raise e
    | some row =>
        if row.user != user.pk || row.authEpoch != user.authEpoch || row.revokedAt.isSome then
          return false
        else do
          touchSession row
          return true

/-- The row of a session that Django keeps deleted, by `request.session.flush()`. -/
def flushSession (sessionKey : String) : M Unit :=
  atomic (Prog.write (removeSessions [sessionKey]))

/-- `AccountSessionService.end`. -/
def sessionLogout (sessionKey : String) : M Unit := do
  sessionEnd sessionKey
  flushSession sessionKey

/-- `request.user`: the active user of the session, unless its hash is of another
    password; then the session is flushed. -/
def requestAccount (r : SessionRequest) : M (Option User) := do
  let row ← fetch fun s => s.users.find? fun u => u.pk == r.user && u.isActive
  match row with
  | none => return none
  | some user =>
      if r.authentic user then return some user
      else do
        flushSession r.sessionKey
        return none

/-- What a request comes to: it goes on with no user or with one, or is answered 403. -/
inductive Admission where
  | anonymous
  | admitted (user : User)
  | unavailable

/-- The three conditions on the user of a valid session. -/
def accountAvailable (user : User) : M Bool := do
  if user.isActive && effectiveAccountStatus user == .active then do
    let status ← effectiveUserStatus user.pk
    return status == .active
  else return false

/-- The session is valid, and its user available. -/
def sessionAvailable (r : SessionRequest) (user : User) : M Bool := do
  let valid ← validateRequest r user
  if valid then accountAvailable user else return false

/-- `enforce_http_user_status`: a session that fails a check is ended. -/
def enforceHttpUserStatus (r : SessionRequest) : M Admission := do
  match ← requestAccount r with
  | none => return .anonymous
  | some user => do
      let available ← sessionAvailable r user
      if available then return .admitted user
      else do
        sessionLogout r.sessionKey
        return .unavailable

end Market
