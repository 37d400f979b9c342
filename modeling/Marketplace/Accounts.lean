import Mathlib.Data.List.Sort
import Marketplace.Trades
import Marketplace.Transfers

/-! # Accounts: withdrawal, profile requests and status

    `accounts/withdrawal.py`, the session service and the `bio_edit` and
    `password_change` views, and `_require_active_user` of `chat/services.py`.
    Stored password hashes are taken to be of the preferred hasher, so that
    `check_password` never writes. -/

namespace Market

open TxnProgram

/-! ## Status -/

inductive EffectiveAccountStatus where
  | active | withdrawn
  deriving DecidableEq

def effectiveAccountStatus (user : User) : EffectiveAccountStatus :=
  if user.withdrawnAt.isSome then .withdrawn else .active

/-- `_require_active_user` of the chat services. -/
def requireActiveUser (user : Nat) (lock : Bool) : M User := do
  let row ← Prog.tryCatch
    (if lock then
      getForUpdate .user (·.users) (·.pk) fun u => u.pk == user && u.isActive
    else getRow .user fun s => s.users.find? fun u => u.pk == user && u.isActive) fun
    | .doesNotExist _ => raise (.chatAuthorizationError "Chat is unavailable.")
    | e => raise e
  if effectiveAccountStatus row != .active then
    raise (.chatAuthorizationError "Chat is unavailable.")
  else do
    let status ← effectiveUserStatus user
    if status != .active then raise (.chatAuthorizationError "Chat is unavailable.")
    else return row

/-! ## Withdrawal -/

def withdrawalEventKey (user authEpoch : Nat) : String :=
  "withdrawal:" ++ toString user ++ ":auth-epoch:" ++ toString authEpoch

def addRevocationTask (t : RevocationTask) (s : Store) : Store :=
  { s with revocationTasks := s.revocationTasks ++ [t] }

def removeFavorites (pks : List Nat) (s : Store) : Store :=
  { s with favorites := s.favorites.filter fun r => !pks.contains r.pk }
def removeNotifications (pks : List Nat) (s : Store) : Store :=
  { s with notifications := s.notifications.filter fun r => !pks.contains r.pk }

structure WithdrawalResult where
  task : RevocationTask
  created : Bool
  deriving DecidableEq

/-- The task of a user that withdrew before. -/
def previousWithdrawal (user : User) : M WithdrawalResult := do
  let task ← getRow .revocationTask fun s => s.revocationTasks.find? fun t =>
    t.user == user.pk && t.authEpoch == user.authEpoch
  return { task := task, created := false }

/-- The locked account of the user, with its ledger account. -/
def lockMockAccount (user : Nat) : M MockAccount :=
  Prog.tryCatch (do
    let account ← getForUpdate .mockAccount (·.accounts) (·.pk) (·.user == user)
    let _ ← getForUpdate .ledgerAccount (·.ledgerAccounts) (·.pk)
      (·.mockAccount == some account.pk)
    return account) fun
    | .doesNotExist _ => raise (.withdrawalUnavailable "모의 계좌 권위를 확인할 수 없습니다.")
    | e => raise e

/-- `_assert_retention_authorities_available`: one query of each table, whose answer is
    not used. -/
def assertRetentionAuthoritiesAvailable : M Unit := do
  let _ ← fetch fun s => !s.conversations.isEmpty
  let _ ← fetch fun s => !s.messages.isEmpty
  let _ ← fetch fun s => !s.reviews.isEmpty
  let _ ← fetch fun s => !s.reports.isEmpty
  let _ ← fetch fun s => !s.actions.isEmpty
  let _ ← fetch fun s => !s.auditEvents.isEmpty
  let _ ← fetch fun s => !s.scopeGrants.isEmpty
  let _ ← fetch fun s => !s.adminAudits.isEmpty
  return ()

/-- What the checks of `withdraw_account` locked. -/
structure WithdrawalScope where
  products : List Product
  trades : List Trade
  favoriteProducts : List Nat
  account : MockAccount

/-- The locks and checks of `withdraw_account` after the user's own. -/
def withdrawalScope (user : User) : M WithdrawalScope := do
  let owned ← fetch fun s => (s.products.filter (·.owner == user.pk)).map (·.pk)
  let traded ← fetch fun s => (s.trades.filter fun t =>
    t.seller == user.pk || t.buyer == some user.pk).map (·.product)
  let favorites ← fetch fun s => (s.favorites.filter (·.user == user.pk)).map (·.product)
  let products ← selectForUpdate .product (·.products) (·.pk) fun r =>
    (owned ++ traded ++ favorites).contains r.pk
  let trades ← selectForUpdate .trade (·.trades) (·.pk) fun t =>
    t.seller == user.pk || t.buyer == some user.pk
  raiseIf (trades.any (·.status == .reserved))
    (.withdrawalBlocked "진행 중인 거래를 먼저 종료해 주세요.")
  let account ← lockMockAccount user.pk
  raiseIf (account.balance != 0)
    (.withdrawalBlocked "모의 잔액을 0원으로 만든 뒤 다시 시도해 주세요.")
  let _ ← selectForUpdate .favorite (·.favorites) (·.pk) (·.user == user.pk)
  let _ ← selectForUpdate .notification (·.notifications) (·.pk) (·.recipient == user.pk)
  assertRetentionAuthoritiesAvailable
  return ⟨products, trades, favorites, account⟩

/-- The user's products that no completed trade took. -/
def availableProducts (user : User) (scope : WithdrawalScope) : List Nat :=
  let completed := (scope.trades.filter (·.status == .completed)).map (·.product)
  (scope.products.filter fun r => r.owner == user.pk && r.archivedAt.isNone
    && !completed.contains r.pk).map (·.pk)

def archiveAvailable (user : User) (scope : WithdrawalScope) (now : Time) : M Unit :=
  if (availableProducts user scope).isEmpty then return ()
  else updateRows .product (availableProducts user scope)
    (updateProducts (availableProducts user scope) (archive now now))

/-- The loop over the favorite products. -/
def recomputeMetrics : List Nat → M Unit
  | [] => return ()
  | product :: rest => do
      let _ ← recomputeProductMetric product
      recomputeMetrics rest

def closeWithdrawnAccount (user : User) (account : MockAccount) (now : Time) : M Unit :=
  if account.isOpen then do
    updateRows .mockAccount [account.pk] (setClosed account.pk now)
    insertRow [] (addTransferAudit { actor := user.pk, eventType := "ACCOUNT_CLOSED" })
  else return ()

/-- `user.save(update_fields=("is_active", "withdrawn_at", "auth_epoch", "password"))`. -/
def setWithdrawn (user : User) (now : Time) (s : Store) : Store :=
  updateUser user.pk (fun u =>
    { u with isActive := false, withdrawnAt := some now,
             authEpoch := user.authEpoch + 1, password := none }) s

/-- `RevocationTask.objects.get_or_create(...)`. -/
def revocationTask (user authEpoch : Nat) : M (RevocationTask × Bool) :=
  getOrCreate
    (fetch fun s => s.revocationTasks.find? fun t =>
      t.user == user && t.authEpoch == authEpoch) do
      let n ← Prog.fresh
      let availableAt ← timezoneNow
      let task : RevocationTask :=
        { pk := n, user := user, eventKey := withdrawalEventKey user authEpoch,
          authEpoch := authEpoch, availableAt := availableAt }
      insertRow [.pk .revocationTask n, .revocationUserEpoch user authEpoch,
        .revocationEventKey task.eventKey] (addRevocationTask task)
      return task

/-- What the user leaves behind: products, favorites and notifications. -/
def clearHoldings (user : User) (scope : WithdrawalScope) (now : Time) : M Unit := do
  archiveAvailable user scope now
  deleteRows .favorite (·.favorites) (·.pk) (·.user == user.pk) removeFavorites
  recomputeMetrics (scope.favoriteProducts.dedup.insertionSort (· ≤ ·))
  deleteRows .notification (·.notifications) (·.pk) (·.recipient == user.pk)
    removeNotifications

/-- The writes of `withdraw_account`. -/
def commitWithdrawal (user : User) (scope : WithdrawalScope) : M WithdrawalResult := do
  let now ← currentTimestamp
  clearHoldings user scope now
  closeWithdrawnAccount user scope.account now
  updateRows .user [user.pk] (setWithdrawn user now)
  let (task, created) ← revocationTask user.pk (user.authEpoch + 1)
  return { task := task, created := created }

/-- The `with` block of `withdraw_account`. -/
def withdrawAccountBody (user : Nat) (password : String) : M WithdrawalResult := do
  let user ← getForUpdate .user (·.users) (·.pk) (·.pk == user)
  if user.withdrawnAt.isSome then previousWithdrawal user
  else do
    raiseIf (!user.isActive || password.isEmpty || user.password != some password)
      (.withdrawalBlocked "현재 비밀번호를 확인해 주세요.")
    let scope ← withdrawalScope user
    commitWithdrawal user scope

def withdrawAccount (user : Nat) (password : String) : M WithdrawalResult :=
  Prog.tryCatch (atomic (withdrawAccountBody user password)) fun e =>
    if e.isDatabaseError || e == .doesNotExist .user
        || e == .doesNotExist .revocationTask then
      raise (.withdrawalUnavailable "회원 탈퇴 권위를 확인할 수 없습니다.")
    else raise e

structure RevocationPreparation where
  task : RevocationTask
  created : Bool
  deriving DecidableEq

/-- The `with` block of `prepare_withdrawal_revocation`. -/
def prepareWithdrawalRevocationBody (user authEpoch : Nat) : M RevocationPreparation := do
  let row ← Prog.tryCatch (getForUpdate .user (·.users) (·.pk) (·.pk == user)) fun
    | .doesNotExist .user => raise (.revocationPreparationError "revocation state is invalid")
    | e => raise e
  raiseIf (effectiveAccountStatus row != .withdrawn || row.withdrawnAt.isNone || row.isActive
      || row.password.isSome || row.authEpoch != authEpoch)
    (.revocationPreparationError "revocation state is invalid")
  let (task, created) ← revocationTask row.pk authEpoch
  raiseIf (task.eventKey != withdrawalEventKey row.pk authEpoch)
    (.revocationPreparationError "revocation replay is invalid")
  return { task := task, created := created }

/-- `prepare_withdrawal_revocation`, of integers. -/
def prepareWithdrawalRevocation (user authEpoch : Int) : M RevocationPreparation := do
  raiseIf (decide (user ≤ 0) || decide (authEpoch ≤ 0))
    (.revocationPreparationError "revocation state is invalid")
  atomic (prepareWithdrawalRevocationBody user.toNat authEpoch.toNat)

/-! ## Requests of a logged-in user -/

/-- A request: whose session it carries, and the epoch the session was given. -/
structure Request where
  user : Nat
  sessionKey : String
  sessionEpoch : Nat

/-- The user of a request, loaded once at its start, after the checks of the status
    middleware: active, not withdrawn, of the session's epoch, and not dormant. -/
def requestUser (r : Request) : M User := do
  let row ← fetch fun s => s.users.find? fun u => u.pk == r.user && u.isActive
  match row with
  | none => raise (.permissionDenied "login required")
  | some user =>
      if r.sessionEpoch != user.authEpoch || user.withdrawnAt.isSome then
        raise (.permissionDenied "Account unavailable.")
      else do
        let status ← effectiveUserStatus user.pk
        if status != .active then raise (.permissionDenied "Account unavailable.")
        else return user

/-- `Model.save()` without `update_fields`: every column of the loaded row is written
    back, by one statement of its own. -/
def saveUser (user : User) : M Unit := atomic do
  Prog.acquire (.row .user user.pk)
  Prog.observe (.savingUser user)
  Prog.write (updateUser user.pk fun _ => user)

/-- The `bio` field of the form: stripped, at most 500 characters, no NUL. -/
def cleanBio (bio : String) : Except Exn String :=
  let value := strip bio
  if decide (500 < value.length) || value.toList.any (·.toNat == 0) then
    .error (.validationError "bio")
  else .ok value

/-- A `POST` to `bio_edit`. -/
def bioEdit (r : Request) (bio : String) : M Unit := do
  let user ← requestUser r
  let value ← Prog.ofAnswer (cleanBio bio)
  saveUser { user with bio := value }

/-- The rows with a primary key of the list replaced by `f` of them. -/
def updateSessions (pks : List Nat) (f : UserSessionIndex → UserSessionIndex)
    (s : Store) : Store :=
  { s with sessionIndex := s.sessionIndex.map fun r =>
      if pks.contains r.pk then f r else r }

def addSession (r : UserSessionIndex) (s : Store) : Store :=
  { s with sessionIndex := s.sessionIndex ++ [r] }

/-- `AccountSessionService.end(flush=False)`. -/
def sessionEnd (sessionKey : String) : M Unit := do
  let now ← timezoneNow
  atomic do
    let rows ← fetch fun s => (s.sessionIndex.filter fun r =>
      r.sessionKey == sessionKey && r.revokedAt.isNone).map (·.pk)
    updateRows .sessionIndex rows
      (updateSessions rows fun r => { r with revokedAt := some now })

/-- The row of a session that was indexed before, with the user's epoch. -/
def reindexSession (user : User) (now : Time) (row : UserSessionIndex) :
    M UserSessionIndex := do
  raiseIf (row.user != user.pk)
    (.runtimeError "session key is already indexed to another user")
  raiseIf row.revokedAt.isSome (.runtimeError "authenticated session is revoked")
  if row.authEpoch != user.authEpoch then do
    atomic (updateRows .sessionIndex [row.pk] (updateSessions [row.pk] fun r =>
      { r with authEpoch := user.authEpoch, lastSeenAt := now }))
    return { row with authEpoch := user.authEpoch, lastSeenAt := now }
  else return row

/-- `AccountSessionService.start`. -/
def sessionStart (user : User) (sessionKey : String) : M UserSessionIndex := do
  let now ← timezoneNow
  let (row, created) ← atomic (getOrCreate
    (fetch fun s => s.sessionIndex.find? (·.sessionKey == sessionKey)) do
      let n ← Prog.fresh
      let row : UserSessionIndex :=
        { pk := n, user := user.pk, sessionKey := sessionKey,
          authEpoch := user.authEpoch, lastSeenAt := now }
      insertRow [.pk .sessionIndex n, .sessionKey sessionKey] (addSession row)
      return row)
  if created then return row else reindexSession user now row

/-- `rotate_after_password_change`; the session gets a key that Django makes up. -/
def rotateAfterPasswordChange (r : Request) (user : User) : M UserSessionIndex := do
  sessionEnd r.sessionKey
  atomic (updateRows .user [user.pk] (bumpAuthEpoch user.pk))
  let stored ← getRow .user fun s => s.users.find? (·.pk == user.pk)
  let newKey ← Prog.fresh
  sessionStart { user with authEpoch := stored.authEpoch } (toString newKey)

/-- `PasswordBoundsValidator`. -/
def passwordInBounds (password : String) : Bool :=
  !password.toList.any (·.toNat == 0) && decide (12 ≤ password.length)
    && decide (password.length ≤ 128)

/-- `OwnPasswordChangeForm.is_valid()`: the old password, the new one twice, and the
    validators; `accepts` answers for those of Django's library. -/
def passwordFormValid (accepts : User → String → Bool) (user : User)
    (old new1 new2 : String) : Bool :=
  user.password == some old && new1 == new2 && passwordInBounds new1 && accepts user new1

/-- A `POST` to `password_change`. -/
def passwordChange (accepts : User → String → Bool) (r : Request)
    (old new1 new2 : String) : M Unit := do
  let user ← requestUser r
  if passwordFormValid accepts user old new1 new2 then do
    saveUser { user with password := some new1 }
    let _ ← rotateAfterPasswordChange r { user with password := some new1 }
    return ()
  else raise (.validationError "password")

end Market
