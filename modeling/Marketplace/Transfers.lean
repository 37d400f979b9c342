import Mathlib.Logic.Function.Basic
import Marketplace.Store

/-! # Mock accounts, the ledger and transfers

    `transfers/services.py`, the notifications a room transfer creates
    (`notifications/services.py`) and the `reconcile_mock_ledger` command. -/

namespace Market

open TxnProgram

/-- What the code takes from Python's library: the BLAKE2b digest of
    `"{sender_id}:{key}"` as a signed 64-bit number, `UUID(text)`, and
    `unicodedata.normalize("NFC", text)`. -/
structure Platform where
  idempotencyDigest : Nat → Uuid → Int
  parseUuid : String → Option Uuid
  normalizeNfc : String → String

/-- A platform to run examples on: its digests are all one, and no text is a UUID. -/
def plainPlatform : Platform := ⟨fun _ _ => 0, fun _ => none, id⟩

def SEED_AMOUNT : Money := 10000000
def MAX_BALANCE : Money := 100000000000
def SAFETY_LOCK_KEY : Int := 0x5452414E53464552

/-! ## Texts -/

/-- `n` in hexadecimal, with `width` digits. -/
def hexDigits : Nat → Nat → List Char
  | 0, _ => []
  | width + 1, n => hexDigits width (n / 16) ++ [Nat.digitChar (n % 16)]

/-- `str(uuid)`: groups of 8, 4, 4, 4 and 12 digits. -/
def uuidStr (u : Uuid) : String :=
  let d := hexDigits 32 u
  String.ofList (d.take 8 ++ '-' :: (d.drop 8).take 4 ++ '-' :: (d.drop 12).take 4 ++
    '-' :: (d.drop 16).take 4 ++ '-' :: d.drop 20)

/-- `f"{amount:.2f}"`. -/
def format2f (m : Money) : String :=
  let cents := m.natAbs % 100
  (if m < 0 then "-" else "") ++ toString (m.natAbs / 100) ++ "." ++
    (if cents < 10 then "0" else "") ++ toString cents

/-- `f"{amount:.0f}"`: the nearest whole number, halves to the even one. -/
def format0f (m : Money) : String :=
  let whole := m.natAbs / 100
  let cents := m.natAbs % 100
  let rounded := if cents > 50 || (cents == 50 && whole % 2 == 1) then whole + 1 else whole
  (if m < 0 then "-" else "") ++ toString rounded

/-- One character of a JSON string as `json.dumps(..., ensure_ascii=False)` writes it. -/
def jsonEscape (c : Char) : List Char :=
  if c == '"' then ['\\', '"']
  else if c == '\\' then ['\\', '\\']
  else if c == '\n' then ['\\', 'n']
  else if c == '\r' then ['\\', 'r']
  else if c == '\t' then ['\\', 't']
  else if c.toNat == 12 then ['\\', 'f']
  else if c.toNat == 8 then ['\\', 'b']
  else if c.toNat < 32 then '\\' :: 'u' :: hexDigits 4 c.toNat
  else [c]

def jsonString (s : String) : String :=
  "\"" ++ String.ofList (s.toList.flatMap jsonEscape) ++ "\""

def canonicalPayload (recipient : String) (amount : Money) : String :=
  "\x7b\"amount\":" ++ jsonString (format2f amount) ++ ",\"recipient\":" ++
    jsonString recipient ++ ",\"version\":1\x7d"

def canonicalRoomPayload (roomId : Nat) (amount : Money) : String :=
  "\x7b\"amount\":" ++ jsonString (format2f amount) ++ ",\"room_id\":" ++
    toString roomId ++ ",\"version\":2\x7d"

/-! ## Writes -/

def addAccount (a : MockAccount) (s : Store) : Store :=
  { s with accounts := s.accounts ++ [a] }
def addLedgerAccount (l : LedgerAccount) (s : Store) : Store :=
  { s with ledgerAccounts := s.ledgerAccounts ++ [l] }
def addJournal (j : LedgerJournal) (s : Store) : Store :=
  { s with journals := s.journals ++ [j] }
def addEntries (es : List LedgerEntry) (s : Store) : Store :=
  { s with entries := s.entries ++ es }
def addTransfer (t : Transfer) (s : Store) : Store :=
  { s with transfers := s.transfers ++ [t] }
def addRequest (r : TransferRequest) (s : Store) : Store :=
  { s with requests := s.requests ++ [r] }
def addTransferAudit (a : TransferAudit) (s : Store) : Store :=
  { s with transferAudits := s.transferAudits ++ [a] }
def addNotification (n : Notification) (s : Store) : Store :=
  { s with notifications := s.notifications ++ [n] }
def addSafety (t : TransferSafetyState) (s : Store) : Store :=
  { s with safety := s.safety.or (some t) }
def setSafety (t : TransferSafetyState) (s : Store) : Store :=
  { s with safety := s.safety.map fun _ => t }

/-- The rows with primary key `pk` replaced by `f` of them. -/
def updateAccount (pk : Nat) (f : MockAccount → MockAccount) (s : Store) : Store :=
  { s with accounts := s.accounts.map fun a => if a.pk = pk then f a else a }

def setBalance (pk : Nat) (balance : Money) (s : Store) : Store :=
  updateAccount pk (fun a => { a with balance := balance }) s

def setClosed (pk : Nat) (closedAt : Time) (s : Store) : Store :=
  updateAccount pk (fun a => { a with isOpen := false, closedAt := some closedAt }) s

/-- `account.save(update_fields=("balance",))`, with the range check of the table. -/
def saveBalance (pk : Nat) (balance : Money) : M Unit := do
  raiseIf (decide (balance < 0) || decide (MAX_BALANCE < balance)) .integrityError
  updateRows .mockAccount [pk] (setBalance pk balance)

/-! ## Locks -/

def advisoryLock (key : Int) (shared : Bool) : M Unit :=
  Prog.acquire (.advisory key shared)

def idempotencyLock (p : Platform) (sender : Nat) (key : Uuid) : M Unit :=
  advisoryLock (p.idempotencyDigest sender key) false

/-- `uuid.uuid4()`, a number of 128 bits that nobody can foresee. -/
def uuid4 : M Uuid := do
  let n ← Prog.fresh
  return n % 2 ^ 128

/-! ## Accounts -/

/-- `get_or_create(singleton=1)` of the safety state. -/
def safetyGetOrCreate (find : M (Option TransferSafetyState)) :
    M (TransferSafetyState × Bool) :=
  getOrCreate find do
    insertRow [.pk .safety 1] (addSafety {})
    return {}

/-- `TransferSafetyState.objects.select_for_update().get_or_create(singleton=1)`. -/
def safetyForUpdate : M (TransferSafetyState × Bool) :=
  safetyGetOrCreate
    (firstForUpdate .safety (fun s => s.safety.toList) (fun _ => 1) fun _ => true)

/-- `LedgerAccount.objects.get_or_create(code="SEED_RESERVE", ...)`. -/
def reserveGetOrCreate : M (LedgerAccount × Bool) :=
  getOrCreate (fetch fun s => s.ledgerAccounts.find? (·.code == "SEED_RESERVE")) do
    let n ← Prog.fresh
    insertRow [.pk .ledgerAccount n, .ledgerAccountCode "SEED_RESERVE"]
      (addLedgerAccount { pk := n, kind := .systemIssuance, code := "SEED_RESERVE" })
    return { pk := n, kind := .systemIssuance, code := "SEED_RESERVE" }

/-- `f"USER:{user.pk}"`. -/
def userCode (user : Nat) : String := "USER:" ++ toString user

/-- The rows of a new account, after the reserve is there. -/
def openAccount (user : Nat) (reserve : LedgerAccount) : M MockAccount := do
  let n ← Prog.fresh
  insertRow [.pk .mockAccount n, .mockAccountUser user]
    (addAccount { pk := n, user := user, balance := SEED_AMOUNT })
  let m ← Prog.fresh
  insertRow [.pk .ledgerAccount m, .ledgerAccountCode (userCode user),
      .ledgerAccountMock n]
    (addLedgerAccount { pk := m, kind := .user, mockAccount := some n,
                        code := userCode user })
  let j ← uuid4
  insertRow [.pk .journal j, .seedPerAccount n]
    (addJournal { pk := j, kind := .seedIssue, targetMockAccount := some n })
  insertRow [] (addEntries
    [{ journal := j, account := m, amount := SEED_AMOUNT },
     { journal := j, account := reserve.pk, amount := -SEED_AMOUNT }])
  let _ ← safetyGetOrCreate (fetch (·.safety))
  return { pk := n, user := user, balance := SEED_AMOUNT }

/-- The decorated function of `ensure_account`. -/
def ensureAccountBody (user : Nat) : M MockAccount := do
  let existing ← firstForUpdate .mockAccount (·.accounts) (·.pk) (·.user == user)
  match existing with
  | some account => return account
  | none => do
      let (reserve, _) ← reserveGetOrCreate
      openAccount user reserve

def ensureAccount (user : Nat) : M MockAccount := atomic (ensureAccountBody user)

/-! ## Transfers -/

structure TransferResult where
  status : Nat
  body : ResponseBody
  replayed : Bool := false
  deriving DecidableEq

def isActiveUser (user : Nat) : M Bool := do
  let found ← fetch fun s =>
    s.users.any fun u => u.pk == user && u.isActive && u.withdrawnAt.isNone
  if found then do
    let dormant ← fetchNow fun t s => s.actions.any fun a =>
      a.kind == .userDormancy && a.targetUser == some user
        && decide (a.startsAt ≤ t) && decide (t < a.expiresAt)
    return !dormant
  else return false

/-- One stored response, as `TransferRequest.objects.create` inserts it. -/
def createRequest (sender : Nat) (key : Uuid) (payload : String) (status : Nat)
    (body : ResponseBody) (transfer : Option Uuid) : M Unit := do
  let n ← Prog.fresh
  insertRow (.pk .request n :: .requestKey sender key ::
      (transfer.toList.map Index.requestTransfer))
    (addRequest { pk := n, sender := sender, idempotencyKey := key,
                  canonicalPayload := payload, responseStatus := status,
                  responseBody := body, transfer := transfer })

def storeDenial (sender : MockAccount) (key : Uuid) (payload : String) :
    M TransferResult := do
  let body := ResponseBody.error "TRANSFER_NOT_ALLOWED"
  createRequest sender.pk key payload 422 body none
  return { status := 422, body := body }

/-- The rechecks under the account locks, in the order of the source's `or`. -/
def mayTransfer (sender recipient : MockAccount) (amount : Money) : M Bool :=
  if !sender.isOpen || !recipient.isOpen then return false
  else do
    let senderActive ← isActiveUser sender.user
    if !senderActive then return false
    else do
      let recipientActive ← isActiveUser recipient.user
      if !recipientActive then return false
      else return !(decide (sender.balance < amount)
        || decide (recipient.balance + amount > MAX_BALANCE))

/-- The stored answer of a request, or the conflict with another payload. -/
def replay (previous : TransferRequest) (payload : String) : M TransferResult :=
  if previous.canonicalPayload != payload then raise .idempotencyConflict
  else return { status := previous.responseStatus, body := previous.responseBody,
                replayed := true }

/-- `account.ledger_account`. -/
def ledgerAccountOf (account : MockAccount) : M LedgerAccount := do
  let found ← fetch fun s => s.ledgerAccounts.find? (·.mockAccount == some account.pk)
  match found with
  | some l => return l
  | none => raise (.relatedObjectDoesNotExist .ledgerAccount)

/-- `body` of a completed transfer. -/
def completedBody (transferId : Uuid) (recipientName : String)
    (amount senderBalance : Money) : ResponseBody :=
  .completed transferId "completed" recipientName (format0f amount)
    (format0f senderBalance)

/-- The money movement of `_execute_once`, after its checks. -/
def moveMoney (senderUser : Nat) (recipientName : String) (amount : Money)
    (key : Uuid) (payload : String) (sender recipient : MockAccount) :
    M TransferResult := do
  saveBalance sender.pk (sender.balance - amount)
  saveBalance recipient.pk (recipient.balance + amount)
  let j ← uuid4
  insertRow [.pk .journal j] (addJournal { pk := j, kind := .transfer })
  let debit ← ledgerAccountOf sender
  let credit ← ledgerAccountOf recipient
  insertRow [] (addEntries
    [{ journal := j, account := debit.pk, amount := -amount },
     { journal := j, account := credit.pk, amount := amount }])
  let t ← uuid4
  insertRow [.pk .transfer t, .transferJournal j] (addTransfer
    { pk := t, sender := sender.pk, recipient := recipient.pk, journal := j,
      amount := amount })
  createRequest sender.pk key payload 201
    (completedBody t recipientName amount (sender.balance - amount)) (some t)
  insertRow [] (addTransferAudit
    { actor := senderUser, eventType := "TRANSFER_COMPLETED", transfer := some t })
  return { status := 201,
           body := completedBody t recipientName amount (sender.balance - amount) }

/-- `request_payload or canonical_payload(recipient_name, amount)`. -/
def payloadOf (recipientName : String) (amount : Money)
    (requestPayload : Option String) : String :=
  match requestPayload with
  | some text => if text.isEmpty then canonicalPayload recipientName amount else text
  | none => canonicalPayload recipientName amount

/-- A new key, after the check of the safety state: who receives, and may they. -/
def executeNew (senderUser : Nat) (recipientName : String) (amount : Money)
    (key : Uuid) (payload : String) (sender : MockAccount) : M TransferResult := do
  let recipientUser ← fetch fun s => s.users.find? (·.username == recipientName)
  match recipientUser with
  | none => storeDenial sender key payload
  | some recipientUser =>
      if recipientUser.pk == senderUser then storeDenial sender key payload
      else do
        let recipient ← fetch fun s => s.accounts.find? (·.user == recipientUser.pk)
        match recipient with
        | none => storeDenial sender key payload
        | some recipient => do
            let rows ← selectForUpdate .mockAccount (·.accounts) (·.pk) fun a =>
              a.pk == sender.pk || a.pk == recipient.pk
            match rows.find? (·.pk == sender.pk), rows.find? (·.pk == recipient.pk) with
            | some sender, some recipient => do
                let allowed ← mayTransfer sender recipient amount
                if allowed then
                  moveMoney senderUser recipientName amount key payload sender recipient
                else storeDenial sender key payload
            | _, _ => raise .keyError

/-- The decorated function of `_execute_once`. -/
def executeOnceBody (p : Platform) (senderUser : Nat) (recipientName : String)
    (amount : Money) (key : Uuid) (requestPayload : Option String) :
    M TransferResult := do
  let sender ← getRow .mockAccount fun s => s.accounts.find? (·.user == senderUser)
  advisoryLock SAFETY_LOCK_KEY true
  idempotencyLock p sender.pk key
  let previous ← firstForUpdate .request (·.requests) (·.pk) fun r =>
    r.sender == sender.pk && r.idempotencyKey == key
  let payload := payloadOf recipientName amount requestPayload
  match previous with
  | some previous => replay previous payload
  | none => do
      let safety ← getRow .safety (·.safety)
      raiseIf (safety.state != .opened) .transferUnavailable
      executeNew senderUser recipientName amount key payload sender

def executeOnce (p : Platform) (senderUser : Nat) (recipientName : String)
    (amount : Money) (key : Uuid) (requestPayload : Option String) :
    M TransferResult :=
  atomic (executeOnceBody p senderUser recipientName amount key requestPayload)

/-- The SQLSTATEs of a serialization failure and a deadlock. -/
def retryable (sqlstate : Option String) : Bool :=
  sqlstate == some "40001" || sqlstate == some "40P01"

/-- The loop of `transfer`, with so many attempts left after this one. -/
def attempts {α : Type} (once : M α) : Nat → M α
  | 0 => Prog.tryCatch once fun
      | .operationalError sqlstate =>
          if retryable sqlstate then raise .transferUnavailable
          else raise (.operationalError sqlstate)
      | e => raise e
  | left + 1 => Prog.tryCatch once fun
      | .operationalError sqlstate =>
          if retryable sqlstate then attempts once left
          else raise (.operationalError sqlstate)
      | e => raise e

def transfer (p : Platform) (senderUser : Nat) (recipientName : String)
    (amount : Money) (key : Uuid) (requestPayload : Option String) :
    M TransferResult :=
  attempts (executeOnce p senderUser recipientName amount key requestPayload) 3

/-! ## Transfers from a product room -/

/-- The decorated function of `create_notification`. -/
def createNotificationBody (recipient : Nat) (eventKey kind : String)
    (payload : JsonObject) : M (Notification × Bool) := do
  raiseIf (eventKey.isEmpty || decide (160 < eventKey.length))
    (.valueError "event_key is invalid")
  let user ← Prog.tryCatch
    (getForUpdate .user (·.users) (·.pk) fun u =>
      u.pk == recipient && u.isActive && u.withdrawnAt.isNone) fun
    | .doesNotExist .user =>
        raise (.notificationAuthorizationError "Notifications are unavailable.")
    | e => raise e
  getOrCreate
    (fetch fun s => s.notifications.find? fun n =>
      n.recipient == user.pk && n.eventKey == eventKey) do
      let n ← Prog.fresh
      insertRow [.pk .notification n, .notification user.pk eventKey] (addNotification
        { pk := n, recipient := user.pk, eventKey := eventKey, kind := kind,
          payload := payload })
      return { pk := n, recipient := user.pk, eventKey := eventKey, kind := kind,
               payload := payload }

def createNotification (recipient : Nat) (eventKey kind : String)
    (payload : JsonObject) : M (Notification × Bool) :=
  atomic (createNotificationBody recipient eventKey kind payload)

/-- `counterparty_names.get(user_id, "")`. -/
def counterpartyName (names : List User) (user : Nat) : String :=
  ((names.find? (·.pk == user)).map (·.username)).getD ""

/-- The payload of both notifications of a transfer. -/
def transferPayload (transferId : Uuid) (amount : Money) (counterparty : String) :
    JsonObject :=
  [("transfer_id", .str (uuidStr transferId)), ("amount", .str (format0f amount)),
   ("counterparty_name", .str counterparty)]

@[irreducible] def senderEventKey (transferId : Uuid) : String :=
  "transfer.sender:" ++ uuidStr transferId
@[irreducible] def recipientEventKey (transferId : Uuid) : String :=
  "transfer.recipient:" ++ uuidStr transferId

def createTransferNotifications (sender recipient : Nat) (transferId : Uuid)
    (amount : Money) : M (Notification × Notification) := do
  let names ← fetch fun s => s.users.filter fun u => u.pk == sender || u.pk == recipient
  let (senderNotice, _) ← createNotification sender
    (senderEventKey transferId) "TRANSFER_SENT"
    (transferPayload transferId amount (counterpartyName names recipient))
  let (recipientNotice, _) ← createNotification recipient
    (recipientEventKey transferId) "TRANSFER_RECEIVED"
    (transferPayload transferId amount (counterpartyName names sender))
  return (senderNotice, recipientNotice)

/-- A conversation with its room, seller and buyer. -/
def joinConversation (room : Nat) (s : Store) :
    Option (ProductConversation × Room × User × User) := do
  let c ← s.conversations.find? (·.room == room)
  let r ← s.rooms.find? (·.pk == c.room)
  let seller ← s.users.find? (·.pk == c.seller)
  let buyer ← s.users.find? (·.pk == c.buyer)
  return (c, r, seller, buyer)

/-- `ProductConversation.objects.select_for_update().select_related("room", "seller",
    "buyer").get(room_id=...)`: the joined rows are locked too. -/
def conversationForUpdate (room : Nat) :
    M (ProductConversation × Room × User × User) := do
  let found ← fetch (joinConversation room)
  match found with
  | none => raise (.doesNotExist .conversation)
  | some (c, r, seller, buyer) =>
      Prog.acquireAll [.row .conversation c.pk, .row .room r.pk, .row .user seller.pk,
        .row .user buyer.pk]
      let found ← fetch (joinConversation room)
      match found with
      | none => raise (.doesNotExist .conversation)
      | some row => return row

/-- The other party of the conversation, when `user` is one. -/
def counterparty (user : Nat) (c : ProductConversation) (seller buyer : User) :
    Option User :=
  if user == c.seller then some buyer
  else if user == c.buyer then some seller
  else none

/-- The notifications of a new transfer; `UUID(result.body["transfer_id"])`. -/
def notifyTransfer (senderUser : Nat) (recipient : User) (amount : Money)
    (result : TransferResult) : M Unit :=
  if result.status == 201 && !result.replayed then
    match result.body with
    | .completed transferId _ _ _ _ => do
        let _ ← createTransferNotifications senderUser recipient.pk transferId amount
        return ()
    | .error _ => raise .keyError
  else return ()

/-- The conversation of the room, `none` when `.get()` finds no row. -/
def findConversation (room : Nat) : M (Option (ProductConversation × Room × User × User)) :=
  Prog.tryCatch (do let row ← conversationForUpdate room; return some row) fun
    | .doesNotExist .conversation => return none
    | e => raise e

/-- A new key of `transfer_for_product_room`. -/
def roomTransferNew (p : Platform) (senderUser : Nat) (room : Nat) (amount : Money)
    (key : Uuid) (sender : MockAccount) : M TransferResult := do
  let payload := canonicalRoomPayload room amount
  let found ← findConversation room
  match found with
  | none => storeDenial sender key payload
  | some (conversation, chatRoom, seller, buyer) =>
      if chatRoom.kind != .product then storeDenial sender key payload
      else match counterparty senderUser conversation seller buyer with
        | none => storeDenial sender key payload
        | some recipient => do
            let result ← transfer p senderUser recipient.username amount key
              (some payload)
            notifyTransfer senderUser recipient amount result
            return result

/-- The decorated function of `transfer_for_product_room`. -/
def transferForProductRoomBody (p : Platform) (senderUser : Nat) (room : Nat)
    (amount : Money) (key : Uuid) : M TransferResult := do
  let sender ← getRow .mockAccount fun s => s.accounts.find? (·.user == senderUser)
  idempotencyLock p sender.pk key
  let previous ← firstForUpdate .request (·.requests) (·.pk) fun r =>
    r.sender == sender.pk && r.idempotencyKey == key
  match previous with
  | some previous => replay previous (canonicalRoomPayload room amount)
  | none => roomTransferNew p senderUser room amount key sender

def transferForProductRoom (p : Platform) (senderUser : Nat) (room : Nat)
    (amount : Money) (key : Uuid) : M TransferResult :=
  atomic (transferForProductRoomBody p senderUser room amount key)

/-! ## Closing and reconciliation -/

/-- The decorated function of `close_account`. -/
def closeAccountBody (user : Nat) : M Bool := do
  advisoryLock SAFETY_LOCK_KEY true
  let (safety, _) ← safetyForUpdate
  raiseIf (safety.state != .opened) .transferUnavailable
  let account ← ensureAccount user
  let account ← getForUpdate .mockAccount (·.accounts) (·.pk) (·.pk == account.pk)
  if !account.isOpen then return false
  else do
    raiseIf (account.balance != 0) (.valueError "ACCOUNT_NOT_EMPTY")
    let now ← timezoneNow
    updateRows .mockAccount [account.pk] (setClosed account.pk now)
    insertRow [] (addTransferAudit { actor := user, eventType := "ACCOUNT_CLOSED" })
    return true

def closeAccount (user : Nat) : M Bool := atomic (closeAccountBody user)

/-- Journals without exactly two entries of sum zero. -/
def unbalancedJournals (s : Store) : List LedgerJournal :=
  s.journals.filter fun j =>
    let entries := s.entries.filter (·.journal == j.pk)
    entries.length != 2 || (entries.map (·.amount)).sum != 0

/-- The sum of a ledger account's entries. -/
def entryTotal (account : Nat) (s : Store) : Money :=
  ((s.entries.filter (·.account == account)).map (·.amount)).sum

/-- The second loop of `ledger_mismatches`, one query for each account. -/
def accountMismatches : List (MockAccount × Option LedgerAccount) → M (List String)
  | [] => return []
  | (_, none) :: _ => raise (.relatedObjectDoesNotExist .ledgerAccount)
  | (account, some ledger) :: rest => do
      let total ← fetch (entryTotal ledger.pk)
      let others ← accountMismatches rest
      return if total != account.balance then
        ("account:" ++ toString account.pk) :: others else others

def ledgerMismatches : M (List String) := do
  let journals ← fetch unbalancedJournals
  let accounts ← fetch fun s => s.accounts.map fun a =>
    (a, s.ledgerAccounts.find? (·.mockAccount == some a.pk))
  let others ← accountMismatches accounts
  return journals.map (fun j => uuidStr j.pk) ++ others

def SafetyState.text : SafetyState → String
  | .opened => "OPEN"
  | .blocked => "BLOCKED"

/-- The branch of `handle` with `--resume`. -/
def resumeIncident (p : Platform) (rawIncident currentRole expectedRole : String)
    (state : TransferSafetyState) (mismatches : List String) : M String :=
  match p.parseUuid rawIncident with
  | none => raise (.commandError "invalid incident UUID")
  | some incident => do
      let role ← fetch fun _ => currentRole
      raiseIf (role != expectedRole)
        (.commandError "ledger maintainer database role required")
      raiseIf (state.state != .blocked || state.incidentId != some incident)
        (.commandError "incident does not match the active block")
      raiseIf (!mismatches.isEmpty) (.commandError "ledger mismatches remain")
      updateRows .safety [1]
        (setSafety { state := .opened, incidentId := none, blockedAt := none })
      return "OPEN"

def blockedMessage (incident : Option Uuid) (mismatches : List String) : String :=
  "ledger blocked incident=" ++ (match incident with
    | some u => uuidStr u
    | none => "None") ++ " mismatches=" ++ toString mismatches.length

/-- The branch of `handle` without `--resume`. -/
def reportMismatches (state : TransferSafetyState) (mismatches : List String) :
    M String :=
  if !mismatches.isEmpty then
    match state.state with
    | .opened => do
        let incident ← Prog.fresh
        let now ← timezoneNow
        updateRows .safety [1]
          (setSafety { state := .blocked, incidentId := some incident, blockedAt := some now })
        raise (.commandError (blockedMessage (some incident) mismatches))
    | .blocked => raise (.commandError (blockedMessage state.incidentId mismatches))
  else return state.state.text ++ ": mismatches=0"

/-- The rest of `handle`, once the state is locked and the ledger checked. -/
def handleMismatches (p : Platform) (resume : Option String)
    (currentRole expectedRole : String) (state : TransferSafetyState)
    (mismatches : List String) : M String :=
  match resume with
  | some rawIncident =>
      if rawIncident.isEmpty then reportMismatches state mismatches
      else resumeIncident p rawIncident currentRole expectedRole state mismatches
  | none => reportMismatches state mismatches

/-- The decorated function of `Command.handle`; what it prints is its result. -/
def handleBody (p : Platform) (resume : Option String)
    (currentRole expectedRole : String) : M String := do
  advisoryLock SAFETY_LOCK_KEY false
  let (state, _) ← safetyForUpdate
  let mismatches ← ledgerMismatches
  handleMismatches p resume currentRole expectedRole state mismatches

/-- `Command.handle` of `reconcile_mock_ledger`. -/
def handle (p : Platform) (resume : Option String) (currentRole expectedRole : String) :
    M String := atomic (handleBody p resume currentRole expectedRole)

end Market
