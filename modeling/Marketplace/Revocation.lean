import Mathlib.Data.List.Sort
import Marketplace.Accounts

/-! # The outbox of session revocations

    `process_revocation_task` of `accounts/withdrawal.py` and the command that runs it
    over the due tasks.  The sockets and the presence keys are outside the database:
    `outside` may take any time and may fail with an exception of any type.  What a
    worker gets done is written to the log of effects. -/

namespace Market

open TxnProgram

/-- The row with the primary key replaced by `f` of it. -/
def updateTask (pk : Nat) (f : RevocationTask → RevocationTask) (s : Store) : Store :=
  { s with revocationTasks := s.revocationTasks.map fun t => if t.pk = pk then f t else t }

/-- The sessions with these keys deleted. -/
def removeSessions (keys : List String) (s : Store) : Store :=
  { s with sessions := s.sessions.filter fun r => !keys.contains r.sessionKey }

def addEffect (e : EffectLog) (s : Store) : Store :=
  { s with effects := s.effects ++ [e] }

/-- `type(exc).__name__`. -/
def Exn.typeName : Exn → String
  | .doesNotExist _ => "DoesNotExist"
  | .relatedObjectDoesNotExist _ => "RelatedObjectDoesNotExist"
  | .keyError => "KeyError"
  | .typeError => "TypeError"
  | .valueError _ => "ValueError"
  | .runtimeError _ => "RuntimeError"
  | .validationError _ => "ValidationError"
  | .permissionDenied _ => "PermissionDenied"
  | .http404 => "Http404"
  | .integrityError => "IntegrityError"
  | .operationalError _ => "OperationalError"
  | .databaseError _ => "DatabaseError"
  | .commandError _ => "CommandError"
  | .transferUnavailable => "TransferUnavailable"
  | .idempotencyConflict => "IdempotencyConflict"
  | .withdrawalBlocked _ => "WithdrawalBlocked"
  | .withdrawalUnavailable _ => "WithdrawalUnavailable"
  | .notificationAuthorizationError _ => "NotificationAuthorizationError"
  | .tradeError _ => "TradeError"
  | .tradeConflict _ => "TradeConflict"
  | .revocationPreparationError _ => "RevocationPreparationError"
  | .chatAuthorizationError _ => "ChatAuthorizationError"
  | .chatPolicyError _ => "ChatPolicyError"
  | .chatReplayConflict _ => "ChatReplayConflict"
  | .chatRateLimited _ => "ChatRateLimited"
  | .moderationPolicyError _ => "ModerationPolicyError"
  | .reportSubmissionError _ => "ReportSubmissionError"
  | .duplicateReportError _ => "DuplicateReportError"
  | .managementError _ => "ManagementError"
  | .managementDenied _ => "ManagementDenied"
  | .managementNotFound _ => "ManagementNotFound"
  | .managementConflict _ => "ManagementConflict"
  | .managementUnavailable _ => "ManagementUnavailable"
  | .reviewAuthorityError _ => "ReviewAuthorityError"
  | .outside typeName => typeName
  | .cleanupFailed _ exc => exc.typeName

/-! ## One worker -/

/-- `timedelta(minutes=2)`, the lease of a claim. -/
def LEASE : Time := seconds 120

/-- `timedelta(minutes=1)`, the wait before another attempt. -/
def RETRY_DELAY : Time := seconds 60

/-- The row that a claim saves. -/
def RevocationTask.claimed (loaded : RevocationTask) (now : Time) (t : RevocationTask) :
    RevocationTask :=
  { t with status := .processing, attemptCount := loaded.attemptCount + 1,
           heartbeatAt := some now, leaseExpiresAt := some (now + LEASE),
           completedAt := none, lastError := "" }

/-- The row that a failed attempt saves. -/
def RevocationTask.retried (now : Time) (error : String) (t : RevocationTask) :
    RevocationTask :=
  { t with status := .retry, availableAt := now + RETRY_DELAY, heartbeatAt := none,
           leaseExpiresAt := none, completedAt := none, lastError := error }

/-- The row that a successful attempt saves. -/
def RevocationTask.finished (now : Time) (t : RevocationTask) : RevocationTask :=
  { t with status := .completed, heartbeatAt := none, leaseExpiresAt := none,
           completedAt := some now, lastError := "" }

/-- Somebody else's lease has not run out. -/
def RevocationTask.leased (t : RevocationTask) (now : Time) : Bool :=
  t.status == .processing && t.leaseExpiresAt.any fun lease => decide (now ≤ lease)

/-- What the first transaction comes to. -/
inductive Claim where
  | answered (done : Bool)
  | claimed (user attempt : Nat)
  deriving DecidableEq

def lockTask (task : Nat) : M RevocationTask :=
  getForUpdate .revocationTask (·.revocationTasks) (·.pk) (·.pk == task)

/-- The first transaction of `process_revocation_task`. -/
def claimTask (task : Nat) (now : Time) : M Claim := do
  let loaded ← lockTask task
  if loaded.status == .completed then return .answered true
  else if loaded.leased now then return .answered false
  else do
    updateRows .revocationTask [loaded.pk] (updateTask loaded.pk (loaded.claimed now))
    return .claimed loaded.user (loaded.attemptCount + 1)

/-- The indexed sessions deleted, and marked as revoked; with no key, no statement. -/
def dropSessions (indexes : List UserSessionIndex) : M Unit :=
  if (indexes.map (·.sessionKey)).isEmpty then return ()
  else do
    Prog.write (removeSessions (indexes.map (·.sessionKey)))
    let now ← timezoneNow
    updateRows .sessionIndex (indexes.map (·.pk))
      (updateSessions (indexes.map (·.pk)) fun r => { r with revokedAt := some now })

/-- The transaction that deletes the sessions of the user. -/
def deleteSessions (task attempt user : Nat) : M Unit := do
  let indexes ← selectForUpdate .sessionIndex (·.sessionIndex) (·.pk) (·.user == user)
  dropSessions indexes
  Prog.write (addEffect ⟨task, attempt, .sessionsDeleted⟩)

/-- Work outside the database: `failure` decodes how it went. -/
def outside (failure : Nat → Option String) (e : EffectLog) : M Unit := do
  match failure (← Prog.fresh) with
  | none => atomic (Prog.write (addEffect e))
  | some typeName => raise (.outside typeName)

/-- The `try` block: sessions, sockets, presence. -/
def revokeEverything (failure : Nat → Option String) (task attempt user : Nat) : M Unit := do
  atomic (deleteSessions task attempt user)
  outside failure ⟨task, attempt, .socketsClosed⟩
  outside failure ⟨task, attempt, .presenceCleared⟩

/-- A transaction that ends an attempt: it saves what it makes of the locked row. -/
def endTask (task attempt : Nat) (saved : Time → RevocationTask → RevocationTask) :
    M Unit := do
  let loaded ← lockTask task
  Prog.observe (.ending task attempt)
  let now ← timezoneNow
  updateRows .revocationTask [loaded.pk] (updateTask loaded.pk (saved now))

/-- The transaction of the `except` block. -/
def retryTask (task attempt : Nat) (e : Exn) : M Unit :=
  endTask task attempt fun now =>
    RevocationTask.retried now (String.ofList (e.typeName.toList.take 200))

/-- The last transaction. -/
def finishTask (task attempt : Nat) : M Unit := endTask task attempt RevocationTask.finished

/-- `process_revocation_task` after its claim. -/
def endClaim (failure : Nat → Option String) (task user attempt : Nat) : M Bool := do
  let revoked ← Prog.tryCatch
    (do revokeEverything failure task attempt user; return true) fun e => do
      atomic (retryTask task attempt e)
      return false
  if revoked then do
    atomic (finishTask task attempt)
    return true
  else return false

def processRevocationTask (failure : Nat → Option String) (task : Nat) : M Bool := do
  let now ← timezoneNow
  match ← atomic (claimTask task now) with
  | .answered done => return done
  | .claimed user attempt => endClaim failure task user attempt

/-! ## The command -/

/-- The tasks that the command takes, before they are ordered. -/
def RevocationTask.due (t : RevocationTask) (now now' : Time) : Bool :=
  ((t.status == .pending || t.status == .retry) && decide (t.availableAt ≤ now)) ||
    (t.status == .processing && t.leaseExpiresAt.any fun lease => decide (lease < now'))

/-- The order `available_at`, `pk`. -/
def RevocationTask.before (t t' : RevocationTask) : Bool :=
  decide (t.availableAt < t'.availableAt) ||
    (t.availableAt == t'.availableAt && decide (t.pk ≤ t'.pk))

/-- The tasks one by one, and how many of them were completed. -/
def processAll (failure : Nat → Option String) : List Nat → M Nat
  | [] => return 0
  | task :: rest => do
      let done ← processRevocationTask failure task
      let completed ← processAll failure rest
      return (if done then 1 else 0) + completed

/-- `Command.handle` of `process_withdrawal_revocations`: the numbers it prints. -/
def processWithdrawalRevocations (failure : Nat → Option String) (limit : Int) :
    M (Nat × Nat) := do
  raiseIf (!(decide (1 ≤ limit) && decide (limit ≤ 1000)))
    (.valueError "limit must be between 1 and 1000")
  let now ← timezoneNow
  let now' ← timezoneNow
  let tasks ← fetch fun s =>
    (((s.revocationTasks.filter (·.due now now')).mergeSort RevocationTask.before).take
      limit.toNat).map (·.pk)
  let completed ← processAll failure tasks
  return (tasks.length, completed)

end Market
