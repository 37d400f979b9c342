import Mathlib.Algebra.Ring.Int.Defs
import Mathlib.Algebra.Ring.Nat
import Mathlib.Logic.Function.Basic
import Marketplace.TxnInterleaving

/-! # The database of the marketplace

    Rows, tables, locks and exceptions of the Django applications, and the
    statements their services are written with.  A table is the list of its rows in
    insertion order.  Columns that no modelled function reads are left out, and so
    are foreign keys: no modelled statement deletes a referenced row. -/

namespace Market

open TxnProgram TxnInterleaving

/-- Database time in microseconds. -/
abbrev Time := Nat

/-- `Decimal` with two places, in hundredths. -/
abbrev Money := Int

/-- A UUID as its 128-bit number. -/
abbrev Uuid := Nat

def seconds (n : Nat) : Time := n * 1000000
def days (n : Nat) : Time := seconds (n * 86400)

/-- Values of the JSON columns. -/
inductive Json where
  | null
  | bool (b : Bool)
  | num (n : Int)
  | str (s : String)
  deriving DecidableEq

abbrev JsonObject := List (String × Json)

/-! ## Rows -/

/-- `accounts.User`.  `password` is the password the stored hash verifies, `none`
    when it is unusable. -/
structure User where
  pk : Nat
  username : String
  password : Option String := none
  isActive : Bool := true
  isStaff : Bool := false
  bio : String := ""
  authEpoch : Nat := 0
  withdrawnAt : Option Time := none
  dateJoined : Time := 0
  deriving DecidableEq

structure UserSessionIndex where
  pk : Nat
  user : Nat
  sessionKey : String
  authEpoch : Nat
  lastSeenAt : Time
  revokedAt : Option Time := none
  deriving DecidableEq

inductive RevocationStatus where
  | pending | processing | retry | completed
  deriving DecidableEq

structure RevocationTask where
  pk : Nat
  user : Nat
  eventKey : String
  authEpoch : Nat
  status : RevocationStatus := .pending
  attemptCount : Nat := 0
  availableAt : Time := 0
  leaseExpiresAt : Option Time := none
  heartbeatAt : Option Time := none
  completedAt : Option Time := none
  lastError : String := ""
  deriving DecidableEq

/-- A row of `django_session`: whose it is, and the value under
    `SESSION_AUTH_EPOCH_KEY`, `null` when there is none. -/
structure DjangoSession where
  sessionKey : String
  user : Nat
  authEpoch : Json
  deriving DecidableEq

inductive RegionSource where
  | legacyUnset | selected | inherited
  deriving DecidableEq

/-- `catalog.Product`.  `image` is the key of the legacy image, `""` for none. -/
structure Product where
  pk : Nat
  owner : Nat
  title : String := ""
  description : String := ""
  price : Nat := 1
  image : String := ""
  category : String := "OTHER"
  region : Option String := none
  regionSource : RegionSource := .legacyUnset
  archivedAt : Option Time := none
  version : Nat := 1
  createdAt : Time := 0
  updatedAt : Time := 0
  deriving DecidableEq

inductive PromotionState where
  | pending | promoted
  deriving DecidableEq

/-- `catalog.ProductImage`.  `image` is the storage key that the bytes are at. -/
structure ProductImage where
  pk : Nat
  product : Nat
  image : String
  position : Nat
  sha256 : String
  byteSize : Nat
  width : Nat
  height : Nat
  ownedKey : String := ""
  promotionState : PromotionState := .promoted
  deriving DecidableEq

structure ProductImageDeletionIntent where
  pk : Nat
  storageKey : String
  attempts : Nat := 0
  deriving DecidableEq

/-- What a worker of the revocation outbox gets done outside its task row. -/
inductive RevocationEffect where
  | sessionsDeleted | socketsClosed | presenceCleared
  deriving DecidableEq

/-- A log of these effects: for which task, and in which attempt. -/
structure EffectLog where
  task : Nat
  attempt : Nat
  effect : RevocationEffect
  deriving DecidableEq

structure Favorite where
  pk : Nat
  user : Nat
  product : Nat
  deriving DecidableEq

structure ProductView where
  product : Nat
  viewedOn : Nat
  viewerDigest : String
  deriving DecidableEq

structure ProductMetric where
  product : Nat
  favoriteCount : Nat
  viewCount : Nat
  productChatCount : Nat
  completedTradeCount : Nat
  deriving DecidableEq

inductive RoomKind where
  | global | direct | product
  deriving DecidableEq

structure Room where
  pk : Nat
  kind : RoomKind
  directUserLow : Option Nat := none
  directUserHigh : Option Nat := none
  deriving DecidableEq

structure RoomParticipant where
  room : Nat
  user : Nat
  deriving DecidableEq

inductive DeliveryState where
  | live | degraded
  deriving DecidableEq

structure ChatMessage where
  pk : Nat
  room : Nat
  sender : Nat
  connectionId : Uuid
  clientMessageId : Uuid
  body : String
  payloadSha256 : String
  delivery : DeliveryState
  acceptedAt : Time
  deriving DecidableEq

structure ProductConversation where
  pk : Nat
  room : Nat
  product : Nat
  seller : Nat
  buyer : Nat
  deriving DecidableEq

structure Notification where
  pk : Nat
  recipient : Nat
  eventKey : String
  kind : String
  payload : JsonObject
  deriving DecidableEq

inductive TradeKind where
  | standard | legacySold
  deriving DecidableEq

inductive TradeStatus where
  | reserved | cancelled | completed
  deriving DecidableEq

structure Trade where
  pk : Nat
  product : Nat
  seller : Nat
  buyer : Option Nat
  kind : TradeKind := .standard
  status : TradeStatus
  completedAt : Option Time := none
  version : Nat := 1
  deriving DecidableEq

/-- `fromStatus` is `none` for the empty string of a first row. -/
structure TradeStatusHistory where
  trade : Nat
  fromStatus : Option TradeStatus
  toStatus : TradeStatus
  actor : Nat
  version : Nat
  deriving DecidableEq

structure Review where
  pk : Nat
  trade : Nat
  author : Nat
  subject : Nat
  rating : Nat
  body : String
  deriving DecidableEq

inductive VisibilityKind where
  | hide | restore
  deriving DecidableEq

/-- `trades.ReviewVisibilityAction`. -/
structure ReviewVisibilityAction where
  pk : Nat
  review : Nat
  actor : Nat
  kind : VisibilityKind
  reason : String
  idempotencyKey : Uuid
  createdAt : Time
  deriving DecidableEq

inductive ActionKind where
  | userDormancy | productHide
  deriving DecidableEq

structure ModerationAction where
  pk : Nat
  kind : ActionKind
  targetUser : Option Nat := none
  targetProduct : Option Nat := none
  startsAt : Time
  expiresAt : Time
  deriving DecidableEq

structure SanctionRelease where
  action : Nat
  actor : Nat
  reason : String
  deriving DecidableEq

inductive TargetType where
  | user | product | review
  deriving DecidableEq

inductive ReportContext where
  | profile | product | productInteraction | globalChat | directChat | review
  deriving DecidableEq

structure AbuseReport where
  pk : Nat
  reporter : Nat
  targetType : TargetType
  targetUser : Option Nat := none
  targetProduct : Option Nat := none
  targetReview : Option Nat := none
  context : ReportContext
  reason : String
  createdAt : Time
  consumedBy : Option Nat := none
  deriving DecidableEq

structure AuditEvent where
  eventType : String
  actor : Option Nat
  action : Option Nat
  details : JsonObject
  deriving DecidableEq

structure AdminScopeGrant where
  pk : Nat
  staff : Nat
  codename : String
  targetUser : Option Nat := none
  targetProduct : Option Nat := none
  targetReview : Option Nat := none
  version : Nat := 1
  grantedBy : Nat
  revokedBy : Option Nat := none
  revokedAt : Option Time := none
  deriving DecidableEq

structure AdminAudit where
  actor : Nat
  action : String
  targetType : String
  targetId : Nat
  reason : String
  before : JsonObject
  after : JsonObject
  result : String
  deriving DecidableEq

structure MockAccount where
  pk : Nat
  user : Nat
  balance : Money
  isOpen : Bool := true
  closedAt : Option Time := none
  deriving DecidableEq

inductive LedgerAccountKind where
  | user | systemIssuance
  deriving DecidableEq

structure LedgerAccount where
  pk : Nat
  kind : LedgerAccountKind
  mockAccount : Option Nat := none
  code : String
  deriving DecidableEq

inductive JournalKind where
  | seedIssue | transfer | compensation
  deriving DecidableEq

structure LedgerJournal where
  pk : Uuid
  kind : JournalKind
  targetMockAccount : Option Nat := none
  deriving DecidableEq

structure LedgerEntry where
  journal : Uuid
  account : Nat
  amount : Money
  deriving DecidableEq

structure Transfer where
  pk : Uuid
  sender : Nat
  recipient : Nat
  journal : Uuid
  amount : Money
  deriving DecidableEq

/-- The response body a request stores: an error code, or the completed transfer.
    `transferId` is the UUID that the JSON spells out. -/
inductive ResponseBody where
  | error (errorCode : String)
  | completed (transferId : Uuid) (status recipient amount senderBalance : String)
  deriving DecidableEq

structure TransferRequest where
  pk : Nat
  sender : Nat
  idempotencyKey : Uuid
  canonicalPayload : String
  responseStatus : Nat
  responseBody : ResponseBody
  transfer : Option Uuid := none
  deriving DecidableEq

inductive SafetyState where
  | opened | blocked
  deriving DecidableEq

/-- The check of `transfers_safety_state_consistent`. -/
def SafetyState.fits : SafetyState → Option Uuid → Option Time → Bool
  | .opened, none, none => true
  | .blocked, some _, some _ => true
  | _, _, _ => false

theorem SafetyState.opened_fits : SafetyState.fits .opened none none = true := rfl

/-- The one row of `TransferSafetyState`, with the defaults of its columns: an incident
    and its time are there exactly while it is blocked. -/
structure TransferSafetyState where
  state : SafetyState := .opened
  incidentId : Option Uuid := none
  blockedAt : Option Time := none
  consistent : state.fits incidentId blockedAt = true := by
    first | exact SafetyState.opened_fits | rfl
  deriving DecidableEq

structure TransferAudit where
  actor : Nat
  eventType : String
  transfer : Option Uuid := none
  deriving DecidableEq

/-! ## The store -/

/-- All tables.  `published` and `effects` are logs of what the services do outside the
    database: the messages handed to the channel layer, and the effects of revocations. -/
structure Store where
  users : List User := []
  sessionIndex : List UserSessionIndex := []
  revocationTasks : List RevocationTask := []
  sessions : List DjangoSession := []
  products : List Product := []
  productImages : List ProductImage := []
  deletionIntents : List ProductImageDeletionIntent := []
  favorites : List Favorite := []
  productViews : List ProductView := []
  productMetrics : List ProductMetric := []
  rooms : List Room := []
  participants : List RoomParticipant := []
  messages : List ChatMessage := []
  conversations : List ProductConversation := []
  notifications : List Notification := []
  trades : List Trade := []
  tradeHistory : List TradeStatusHistory := []
  reviews : List Review := []
  visibilityActions : List ReviewVisibilityAction := []
  actions : List ModerationAction := []
  releases : List SanctionRelease := []
  reports : List AbuseReport := []
  auditEvents : List AuditEvent := []
  scopeGrants : List AdminScopeGrant := []
  adminAudits : List AdminAudit := []
  accounts : List MockAccount := []
  ledgerAccounts : List LedgerAccount := []
  journals : List LedgerJournal := []
  entries : List LedgerEntry := []
  transfers : List Transfer := []
  requests : List TransferRequest := []
  safety : Option TransferSafetyState := none
  transferAudits : List TransferAudit := []
  published : List Nat := []
  effects : List EffectLog := []
  deriving DecidableEq

/-! ## Locks -/

/-- Tables whose rows are locked or looked up by name. -/
inductive Table where
  | user | sessionIndex | revocationTask | session | product | productImage | deletionIntent
  | favorite | productView | productMetric | room | participant | message | conversation
  | notification | trade | tradeHistory | review | visibilityAction | action | release
  | report | auditEvent | scopeGrant | mockAccount | ledgerAccount | journal | transfer
  | request | safety
  deriving DecidableEq

/-- Unique constraints, with the key being inserted. -/
inductive Index where
  | pk (t : Table) (n : Nat)
  | sessionKey (k : String)
  | revocationUserEpoch (user epoch : Nat)
  | revocationEventKey (k : String)
  | djangoSession (k : String)
  | favorite (user product : Nat)
  | productView (product viewedOn : Nat) (viewerDigest : String)
  | productMetric (product : Nat)
  | globalRoom
  | directPair (low high : Nat)
  | conversationRoom (room : Nat)
  | productConversation (product seller buyer : Nat)
  | participant (room user : Nat)
  | clientMessage (room sender : Nat) (clientMessageId : Uuid)
  | notification (recipient : Nat) (eventKey : String)
  | nonCancelledTrade (product : Nat)
  | tradeVersion (trade version : Nat)
  | productImagePosition (product position : Nat)
  | deletionIntentKey (key : String)
  | reviewDirection (trade author : Nat)
  | visibilityKey (key : Uuid)
  | releaseAction (action : Nat)
  | reporterUser (reporter user : Nat)
  | reporterProduct (reporter product : Nat)
  | auditAction (action : Nat)
  | scopeUser (staff : Nat) (codename : String) (user : Nat)
  | scopeProduct (staff : Nat) (codename : String) (product : Nat)
  | scopeReview (staff : Nat) (codename : String) (review : Nat)
  | mockAccountUser (user : Nat)
  | ledgerAccountCode (code : String)
  | ledgerAccountMock (account : Nat)
  | seedPerAccount (account : Nat)
  | transferJournal (journal : Uuid)
  | requestKey (sender : Nat) (key : Uuid)
  | requestTransfer (transfer : Uuid)
  deriving DecidableEq

/-- A row with the primary key is there. -/
def Table.present (t : Table) (n : Nat) (s : Store) : Bool :=
  match t with
  | .user => s.users.any (·.pk == n)
  | .sessionIndex => s.sessionIndex.any (·.pk == n)
  | .revocationTask => s.revocationTasks.any (·.pk == n)
  | .product => s.products.any (·.pk == n)
  | .productImage => s.productImages.any (·.pk == n)
  | .deletionIntent => s.deletionIntents.any (·.pk == n)
  | .review => s.reviews.any (·.pk == n)
  | .visibilityAction => s.visibilityActions.any (·.pk == n)
  | .room => s.rooms.any (·.pk == n)
  | .conversation => s.conversations.any (·.pk == n)
  | .trade => s.trades.any (·.pk == n)
  | .action => s.actions.any (·.pk == n)
  | .report => s.reports.any (·.pk == n)
  | .scopeGrant => s.scopeGrants.any (·.pk == n)
  | .mockAccount => s.accounts.any (·.pk == n)
  | .ledgerAccount => s.ledgerAccounts.any (·.pk == n)
  | .journal => s.journals.any (·.pk == n)
  | .transfer => s.transfers.any (·.pk == n)
  | .request => s.requests.any (·.pk == n)
  | .safety => n == 1 && s.safety.isSome
  | .favorite => s.favorites.any (·.pk == n)
  | .notification => s.notifications.any (·.pk == n)
  | .message => s.messages.any (·.pk == n)
  | .session | .productView | .productMetric | .participant | .tradeHistory | .release
  | .auditEvent => false

/-- A row with the key is there. -/
def Index.present (i : Index) (s : Store) : Bool :=
  match i with
  | .pk t n => t.present n s
  | .sessionKey k => s.sessionIndex.any (·.sessionKey == k)
  | .revocationUserEpoch u e =>
      s.revocationTasks.any fun r => r.user == u && r.authEpoch == e
  | .revocationEventKey k => s.revocationTasks.any (·.eventKey == k)
  | .djangoSession k => s.sessions.any (·.sessionKey == k)
  | .favorite u p => s.favorites.any fun r => r.user == u && r.product == p
  | .productView p d v => s.productViews.any fun r =>
      r.product == p && r.viewedOn == d && r.viewerDigest == v
  | .productMetric p => s.productMetrics.any (·.product == p)
  | .globalRoom => s.rooms.any (·.kind == .global)
  | .directPair a b => s.rooms.any fun r =>
      r.kind == .direct && r.directUserLow == some a && r.directUserHigh == some b
  | .conversationRoom r => s.conversations.any (·.room == r)
  | .productConversation p u b => s.conversations.any fun c =>
      c.product == p && c.seller == u && c.buyer == b
  | .participant r u => s.participants.any fun x => x.room == r && x.user == u
  | .clientMessage r u k => s.messages.any fun m =>
      m.room == r && m.sender == u && m.clientMessageId == k
  | .notification u k => s.notifications.any fun r => r.recipient == u && r.eventKey == k
  | .nonCancelledTrade p =>
      s.trades.any fun r => r.product == p && r.status != .cancelled
  | .tradeVersion t v => s.tradeHistory.any fun r => r.trade == t && r.version == v
  | .productImagePosition p n =>
      s.productImages.any fun r => r.product == p && r.position == n
  | .deletionIntentKey k => s.deletionIntents.any (·.storageKey == k)
  | .reviewDirection t u => s.reviews.any fun r => r.trade == t && r.author == u
  | .visibilityKey k => s.visibilityActions.any (·.idempotencyKey == k)
  | .releaseAction a => s.releases.any (·.action == a)
  | .reporterUser u t => s.reports.any fun r => r.reporter == u && r.targetUser == some t
  | .reporterProduct u t =>
      s.reports.any fun r => r.reporter == u && r.targetProduct == some t
  | .auditAction a => s.auditEvents.any (·.action == some a)
  | .scopeUser u c t => s.scopeGrants.any fun r =>
      r.staff == u && r.codename == c && r.targetUser == some t && r.revokedAt.isNone
  | .scopeProduct u c t => s.scopeGrants.any fun r =>
      r.staff == u && r.codename == c && r.targetProduct == some t && r.revokedAt.isNone
  | .scopeReview u c t => s.scopeGrants.any fun r =>
      r.staff == u && r.codename == c && r.targetReview == some t && r.revokedAt.isNone
  | .mockAccountUser u => s.accounts.any (·.user == u)
  | .ledgerAccountCode c => s.ledgerAccounts.any (·.code == c)
  | .ledgerAccountMock a => s.ledgerAccounts.any (·.mockAccount == some a)
  | .seedPerAccount a =>
      s.journals.any fun r => r.kind == .seedIssue && r.targetMockAccount == some a
  | .transferJournal j => s.transfers.any (·.journal == j)
  | .requestKey u k => s.requests.any fun r => r.sender == u && r.idempotencyKey == k
  | .requestTransfer t => s.requests.any (·.transfer == some t)

/-- Locks held to the end of the transaction: advisory locks (shared or exclusive),
    rows locked for update, and index entries being inserted. -/
inductive Lock where
  | advisory (key : Int) (shared : Bool)
  | row (t : Table) (pk : Nat)
  | unique (i : Index)
  deriving DecidableEq

/-- Two sessions cannot hold both. -/
def Lock.conflicts : Lock → Lock → Prop
  | .advisory k s, .advisory k' s' => k = k' ∧ ¬(s = true ∧ s' = true)
  | .row t n, .row t' n' => t = t' ∧ n = n'
  | .unique i, .unique i' => i = i'
  | _, _ => False

theorem Lock.conflicts_symm (l x : Lock) (h : l.conflicts x) : x.conflicts l := by
  cases l with
  | advisory k s =>
      cases x with
      | advisory k' s' =>
          obtain ⟨hk, hs⟩ := h
          exact ⟨hk.symm, fun hc => hs ⟨hc.2, hc.1⟩⟩
      | row t n => exact h
      | unique i => exact h
  | row t n =>
      cases x with
      | advisory k s => exact h
      | row t' n' => exact ⟨h.1.symm, h.2.symm⟩
      | unique i => exact h
  | unique i =>
      cases x with
      | advisory k s => exact h
      | row t n => exact h
      | unique i' => exact Eq.symm h

/-! ## Exceptions -/

/-- The exceptions that the services raise and catch.  `operationalError` carries
    the SQLSTATE of its cause. -/
inductive Exn where
  | doesNotExist (t : Table)
  | relatedObjectDoesNotExist (t : Table)
  | keyError
  | typeError
  | valueError (msg : String)
  | runtimeError (msg : String)
  | validationError (msg : String)
  | permissionDenied (msg : String)
  | http404
  | integrityError
  | operationalError (sqlstate : Option String)
  | databaseError (msg : String)
  | commandError (msg : String)
  | transferUnavailable
  | idempotencyConflict
  | withdrawalBlocked (msg : String)
  | withdrawalUnavailable (msg : String)
  | notificationAuthorizationError (msg : String)
  | tradeError (msg : String)
  | tradeConflict (msg : String)
  | revocationPreparationError (msg : String)
  | chatAuthorizationError (msg : String)
  | chatPolicyError (msg : String)
  | chatReplayConflict (msg : String)
  | chatRateLimited (retryAfter : Nat)
  | moderationPolicyError (msg : String)
  | reportSubmissionError (msg : String)
  | duplicateReportError (msg : String)
  | managementError (msg : String)
  | managementDenied (msg : String)
  | managementNotFound (msg : String)
  | managementConflict (msg : String)
  | managementUnavailable (msg : String)
  | reviewAuthorityError (msg : String)
  /-- An exception of a library outside the database, by the name of its type. -/
  | outside (typeName : String)
  /-- `exc`, with its attribute `_gallery_cleanup_failed_keys`. -/
  | cleanupFailed (keys : List String) (exc : Exn)
  deriving DecidableEq

/-- The subclasses of `django.db.DatabaseError`. -/
def Exn.isDatabaseError : Exn → Bool
  | .integrityError => true
  | .operationalError _ => true
  | .databaseError _ => true
  | _ => false

/-- Ghost observations: the moments that results about runs speak of. -/
inductive Obs where
  /-- A sanction of the target is about to be inserted: the clock reading it will
      start at, and the time of the statement that looked for a live one. -/
  | sanctioning (targetType : TargetType) (target : Nat) (clock checkedAt : Time)
  /-- A whole row is about to be written back by a request that loaded it. -/
  | savingUser (loaded : User)
  /-- A reservation of the locked product is about to be inserted: the sanctions that
      the first look at the product saw, and when. -/
  | reserving (product : Product) (buyer : Nat) (seen : List ModerationAction)
      (seenAt : Time)
  /-- A new product of the owner is about to be committed. -/
  | listing (owner : Nat)
  /-- The epoch of the locked user is about to be advanced by a revoked scope. -/
  | bumping (user : Nat)
  /-- A worker is about to end the locked task, after the effects of its attempt. -/
  | ending (task attempt : Nat)
  /-- A message is about to be inserted under a primary key of the sequence. -/
  | allocating (message : Nat)
  /-- The clock is about to be read, or has just been, for a decision on the locked
      review. -/
  | deciding (review : Nat)
  /-- A client that pages through the history of the room has got these messages since
      the cursor it started from. -/
  | paged (room start : Nat) (ids : List Nat)
  /-- The version that a request to edit the product submitted has been found to be that
  of the locked row. -/
  | editing (product : Nat)
  /-- A file is about to be saved under the key, or deleted. -/
  | savingFile (key : String)
  | deletingFile (key : String)
  deriving DecidableEq

/-- Programs over the marketplace's store. -/
abbrev M := Prog Store Lock Exn Obs

/-! ## Statements -/

/-- One `SELECT`. -/
def fetch {α : Type} (q : Store → α) : M α := Prog.select fun _ s => q s

/-- One `SELECT` that also reads the statement time, `Now()`. -/
def fetchNow {α : Type} (q : Time → Store → α) : M α :=
  Prog.select fun t s => q t.now s

/-- `clock_timestamp()`. -/
def clockTimestamp : M Time := Prog.select fun t _ => t.now

/-- `CURRENT_TIMESTAMP`: the start of the transaction. -/
def currentTimestamp : M Time := Prog.select fun t _ => t.start

/-- The clock of the application server, `timezone.now()`. -/
def timezoneNow : M Time := Prog.fresh

def raise {α : Type} (e : Exn) : M α := Prog.raise e

def raiseIf (c : Bool) (e : Exn) : M Unit := Prog.raiseIf c e

def atomic {α : Type} (m : M α) : M α := Prog.atomic m

/-- `SELECT ... FOR UPDATE`: the rows of the statement's snapshot are locked one by
    one, and those that still satisfy the condition are returned as they are now. -/
def selectForUpdate {ρ : Type} (t : Table) (rows : Store → List ρ) (pk : ρ → Nat)
    (p : ρ → Bool) : M (List ρ) := do
  let found ← fetch fun s => (rows s).filter p
  Prog.acquireAll (found.map fun r => Lock.row t (pk r))
  fetch fun s => (rows s).filter fun r => p r && (found.map pk).contains (pk r)

/-- `.first()` of a locking query. -/
def firstForUpdate {ρ : Type} (t : Table) (rows : Store → List ρ) (pk : ρ → Nat)
    (p : ρ → Bool) : M (Option ρ) := do
  let found ← selectForUpdate t rows pk p
  return found.head?

/-- `.get()` of a locking query. -/
def getForUpdate {ρ : Type} (t : Table) (rows : Store → List ρ) (pk : ρ → Nat)
    (p : ρ → Bool) : M ρ := do
  match ← firstForUpdate t rows pk p with
  | some r => return r
  | none => raise (.doesNotExist t)

/-- `.get()`. -/
def getRow {ρ : Type} (t : Table) (q : Store → Option ρ) : M ρ := do
  match ← fetch q with
  | some r => return r
  | none => raise (.doesNotExist t)

/-- One `INSERT`: its index entries are claimed, and it is refused when a row with
    one of the keys is there. -/
def insertRow (keys : List Index) (f : Store → Store) : M Unit := do
  Prog.acquireAll (keys.map Lock.unique)
  let taken ← fetch fun s => keys.any (·.present s)
  raiseIf taken .integrityError
  Prog.write f

/-- One `UPDATE` of rows known by primary key. -/
def updateRows (t : Table) (pks : List Nat) (f : Store → Store) : M Unit := do
  Prog.acquireAll (pks.map fun n => Lock.row t n)
  Prog.write f

/-- One `DELETE`: the rows of its snapshot are locked and removed. -/
def deleteRows {ρ : Type} (t : Table) (rows : Store → List ρ) (pk : ρ → Nat)
    (p : ρ → Bool) (remove : List Nat → Store → Store) : M Unit := do
  let found ← fetch fun s => ((rows s).filter p).map pk
  Prog.acquireAll (found.map fun n => Lock.row t n)
  Prog.write (remove found)

/-- `get_or_create`: the insert runs in a savepoint, and a lost race reads again. -/
def getOrCreate {ρ : Type} (find : M (Option ρ)) (create : M ρ) : M (ρ × Bool) := do
  match ← find with
  | some r => return (r, false)
  | none =>
      Prog.tryCatch (do let r ← atomic create; return (r, true)) fun
        | .integrityError => do
            match ← find with
            | some r => return (r, false)
            | none => raise .integrityError
        | e => raise e

/-! ## Conditions on nullable columns -/

/-- `column = value`, which is not known for `NULL`. -/
def sqlEq {α : Type} [BEq α] (column : Option α) (value : α) : Option Bool :=
  column.map (· == value)

def sqlNot (c : Option Bool) : Option Bool := c.map not

def sqlOr : Option Bool → Option Bool → Option Bool
  | some true, _ => some true
  | _, some true => some true
  | some false, some false => some false
  | _, _ => none

/-- `column IS NULL`. -/
def isNull {α : Type} (column : Option α) : Option Bool := some column.isNone

/-- A `WHERE` clause keeps the rows that the condition is known to hold for. -/
def sqlHolds (c : Option Bool) : Bool := c == some true

/-! ## The database -/

/-- `transfers_validate_balanced_journal`: at `COMMIT`, every journal that was
    inserted or given an entry has exactly two entries, of sum zero. -/
def validateBalancedJournal (before after : Store) : Option Exn :=
  let checked := ((after.journals.drop before.journals.length).map (·.pk)) ++
    ((after.entries.drop before.entries.length).map (·.journal))
  let balanced := fun (j : Uuid) =>
    let entries := after.entries.filter (·.journal == j)
    entries.length == 2 && (entries.map (·.amount)).sum == 0
  if checked.all balanced then none
  else some (.databaseError "ledger journal must contain exactly two balanced entries")

/-- The PostgreSQL database of the marketplace: any statement may fail with an
    `OperationalError`, and `env` is what other clients may do to the store. -/
def postgres (env : Store → Store → Prop) : Database Store Lock Exn where
  conflict := Lock.conflicts
  deferred := validateBalancedJournal
  fault := fun e => ∃ sqlstate, e = .operationalError sqlstate
  env := env

/-- A call that has the database to itself: its result and what it leaves. -/
def call {α : Type} (m : M α) (ids : Nat → Nat) (now : Time) (s : Store) :
    Except Exn α × Store :=
  let out := m.run validateBalancedJournal ids ⟨s, now, {}⟩
  (out.1, out.2.db)

end Market
