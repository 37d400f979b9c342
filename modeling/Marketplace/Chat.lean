import Marketplace.Accounts

/-! # Chat: acceptance, history, rooms and presence

    `chat/services.py`, `chat/policies.py`, and `authorized_presence_peers` of
    `chat/presence.py`.  SHA-256 is a parameter.  An attempt to publish is logged in
    `published`; the channel layer may refuse it with any exception. -/

namespace Market

open TxnProgram

/-! ## Policies -/

def CHAT_MAX_BYTES : Nat := 2000
def CHAT_BURST_MESSAGES : Nat := 10
def CHAT_BURST_SECONDS : Nat := 10
def CHAT_SUSTAINED_MESSAGES : Nat := 60
def CHAT_SUSTAINED_SECONDS : Nat := 60
def CONNECTION_BURST_MESSAGES : Nat := 10
def CONNECTION_BURST_SECONDS : Nat := 10
def HISTORY_MAX_LIMIT : Nat := 100

/-- `ord(character) < 0x20 and character != "\n"`. -/
def forbiddenControl (c : Char) : Bool := decide (c.toNat < 0x20) && c != '\n'

/-- `normalize_chat_text`, of a text. -/
def normalizeChatText (value : String) : Except Exn String :=
  if value.toList.any forbiddenControl then
    .error (.chatPolicyError "message contains a forbidden control character")
  else
    let normalized := strip value
    if normalized.isEmpty then .error (.chatPolicyError "message must not be empty")
    else if CHAT_MAX_BYTES < normalized.utf8ByteSize then
      .error (.chatPolicyError "message exceeds the UTF-8 byte limit")
    else .ok normalized

/-- `value.version == 4 and value.variant == RFC_4122`. -/
def isUuid4 (value : Uuid) : Bool :=
  value.testBit 63 && !value.testBit 62 && value / 2 ^ 76 % 16 == 4

/-- `require_uuid4`. -/
def requireUuid4 (value : Uuid) : Except Exn Unit :=
  if isUuid4 value then .ok ()
  else .error (.chatPolicyError "client_message_id must be a UUIDv4")

/-- The sorted JSON object of `canonical_payload_sha256`. -/
def canonicalMessage (room sender : Nat) (body : String) : String :=
  "\x7b\"body\":" ++ jsonString body ++ ",\"room_id\":" ++ toString room ++
    ",\"sender_id\":" ++ toString sender ++ "\x7d"

/-- `canonical_payload_sha256`, which normalizes the body once more. -/
def canonicalPayloadSha256 (sha256 : String → String) (room sender : Nat) (body : String) :
    Except Exn String :=
  (normalizeChatText body).map fun text => sha256 (canonicalMessage room sender text)

/-! ## Access -/

def chatUnavailable : Exn := .chatAuthorizationError "Chat is unavailable."

/-- `except DoesNotExist as exc: raise ChatAuthorizationError(...) from exc`. -/
def orUnavailable {α : Type} (m : M α) : M α :=
  Prog.tryCatch m fun
    | .doesNotExist _ => raise chatUnavailable
    | e => raise e

/-- The status checks of a user whose row is there. -/
def requireActiveParty (user : User) : M Unit :=
  if effectiveAccountStatus user != .active then raise chatUnavailable
  else do
    let status ← effectiveUserStatus user.pk
    raiseIf (status != .active) chatUnavailable

def requireActiveParties : List User → M Unit
  | [] => return ()
  | user :: rest => do
      requireActiveParty user
      requireActiveParties rest

/-- Two active users, locked in the order of their primary keys. -/
def lockActiveParties (a b : Nat) : M (List User) := do
  let users ← selectForUpdate .user (·.users) (·.pk) fun u =>
    (u.pk == a || u.pk == b) && u.isActive
  raiseIf (users.length != 2) chatUnavailable
  requireActiveParties users
  return users

/-- `next(user for user in users if user.pk == user_id)`. -/
def nextUser (users : List User) (user : Nat) : M User :=
  match users.find? (·.pk == user) with
  | some row => return row
  | none => raise (.outside "StopIteration")

/-- `Room.contains_user`. -/
def roomContainsUser (room : Room) (user : Nat) : M Bool :=
  match room.kind with
  | .global => return true
  | .product => fetch fun s => s.participants.any fun x => x.room == room.pk && x.user == user
  | .direct => return room.directUserLow == some user || room.directUserHigh == some user

/-- `ProductConversation.objects.select_related("product").get(room=room)`. -/
def joinProduct (room : Nat) (s : Store) : Option (ProductConversation × Product) := do
  let c ← s.conversations.find? (·.room == room)
  let product ← s.products.find? (·.pk == c.product)
  return (c, product)

/-- `set(...values_list("user_id", flat=True))`. -/
def participantIds (room : Nat) (s : Store) : List Nat :=
  ((s.participants.filter (·.room == room)).map (·.user)).dedup

/-- `participant_ids == {seller_id, buyer_id}`. -/
def isPartySet (participants : List Nat) (c : ProductConversation) : Bool :=
  participants.all (fun n => n == c.seller || n == c.buyer) &&
    participants.contains c.seller && participants.contains c.buyer

def requireActiveUsers : List Nat → M Unit
  | [] => return ()
  | user :: rest => do
      let _ ← requireActiveUser user false
      requireActiveUsers rest

/-- The part of `_require_room_access` about product rooms. -/
def requireProductRoom (room : Nat) (requireActiveParticipants : Bool) : M Unit := do
  let (c, product) ← orUnavailable (getRow .conversation (joinProduct room))
  let participants ← fetch (participantIds room)
  raiseIf (!isPartySet participants c || product.owner != c.seller) chatUnavailable
  let visibility ← effectiveProductVisibility c.product
  raiseIf (visibility != .visible) chatUnavailable
  if requireActiveParticipants then requireActiveUsers participants else return ()

/-- `_require_room_access`. -/
def requireRoomAccess (room user : Nat) (lock requireActiveParticipants : Bool) : M Room := do
  let row ← orUnavailable
    (if lock then getForUpdate .room (·.rooms) (·.pk) (·.pk == room)
    else getRow .room fun s => s.rooms.find? (·.pk == room))
  let contained ← roomContainsUser row user
  raiseIf (!contained) chatUnavailable
  if row.kind == .product then do
    requireProductRoom row.pk requireActiveParticipants
    return row
  else return row

/-- `_require_message_accept_access` of a product room, after its kind is known. -/
def productAcceptAccess (room sender : Nat) : M (User × Room) := do
  let c ← orUnavailable (getRow .conversation fun s => s.conversations.find? (·.room == room))
  raiseIf (sender != c.seller && sender != c.buyer) chatUnavailable
  let users ← lockActiveParties c.seller c.buyer
  orUnavailable do
    let _ ← getForUpdate .product (·.products) (·.pk) fun r =>
      r.pk == c.product && r.owner == c.seller && r.archivedAt.isNone
    let _ ← getForUpdate .conversation (·.conversations) (·.pk) fun x =>
      x.pk == c.pk && x.room == room && x.product == c.product && x.seller == c.seller
        && x.buyer == c.buyer
    return ()
  let row ← requireRoomAccess room sender true true
  let user ← nextUser users sender
  return (user, row)

/-- `_require_message_accept_access`. -/
def requireMessageAcceptAccess (room sender : Nat) : M (User × Room) := do
  let kind ← orUnavailable
    (getRow .room fun s => (s.rooms.find? (·.pk == room)).map (·.kind))
  if kind != .product then do
    let user ← requireActiveUser sender true
    let row ← requireRoomAccess room sender true true
    return (user, row)
  else productAcceptAccess room sender

/-! ## Acceptance -/

structure AcceptedMessage where
  serverMessageId : Nat
  clientMessageId : Uuid
  acceptedAt : Time
  delivery : DeliveryState
  replayed : Bool
  deriving DecidableEq

def addMessage (m : ChatMessage) (s : Store) : Store :=
  { s with messages := s.messages ++ [m] }
def addPublished (message : Nat) (s : Store) : Store :=
  { s with published := s.published ++ [message] }
def setDelivery (message : Nat) (delivery : DeliveryState) (s : Store) : Store :=
  { s with messages := s.messages.map fun m =>
      if m.pk = message then { m with delivery := delivery } else m }

/-- `accepted_at__gt=now - timedelta(seconds=window)`. -/
def isRecent (window : Nat) (now acceptedAt : Time) : Bool :=
  decide (now < acceptedAt + seconds window)

/-- The first `limit` times of acceptance in the window before `now`, or later. -/
def windowTimestamps (q : ChatMessage → Bool) (limit window : Nat) (now : Time) (s : Store) :
    List Time :=
  (((s.messages.filter q).map (·.acceptedAt)).filter (isRecent window now)).insertionSort
    (· ≤ ·) |>.take limit

/-- `math.ceil(duration.total_seconds())` of a duration that is not negative. -/
def ceilSeconds (micros : Nat) : Nat := (micros + 999999) / 1000000

/-- `math.ceil(remaining)` when the window is full, else 0. -/
def windowRetryAfter (limit window : Nat) (now : Time) : List Time → Nat
  | [] => 0
  | first :: rest =>
      if limit ≤ (first :: rest).length then
        ceilSeconds (first + seconds window - now)
      else 0

/-- The checks of `_enforce_rate_limits`: whose messages, how many, in how many seconds. -/
def rateChecks (sender : Nat) (connectionId : Uuid) :
    List ((ChatMessage → Bool) × Nat × Nat) :=
  [(fun m => m.sender == sender, CHAT_BURST_MESSAGES, CHAT_BURST_SECONDS),
   (fun m => m.sender == sender, CHAT_SUSTAINED_MESSAGES, CHAT_SUSTAINED_SECONDS),
   (fun m => m.sender == sender && m.connectionId == connectionId,
    CONNECTION_BURST_MESSAGES, CONNECTION_BURST_SECONDS)]

/-- The loop over the checks: `retry_after`. -/
def retryAfter (now : Time) : List ((ChatMessage → Bool) × Nat × Nat) → Nat → M Nat
  | [], longest => return longest
  | (q, limit, window) :: rest, longest => do
      let timestamps ← fetch (windowTimestamps q limit window now)
      retryAfter now rest (max longest (windowRetryAfter limit window now timestamps))

/-- `_enforce_rate_limits`. -/
def enforceRateLimits (sender : Nat) (connectionId : Uuid) (now : Time) : M Unit := do
  let longest ← retryAfter now (rateChecks sender connectionId) 0
  raiseIf (longest != 0) (.chatRateLimited (max 1 longest))

/-- What `accept` is called with, once the body is normalized. -/
structure ChatSubmission where
  room : Nat
  sender : Nat
  connectionId : Uuid
  clientMessageId : Uuid
  body : String
  payloadSha256 : String

/-- The row of a new message. -/
def ChatSubmission.message (x : ChatSubmission) (n : Nat) (acceptedAt : Time) : ChatMessage :=
  { pk := n, room := x.room, sender := x.sender, connectionId := x.connectionId,
    clientMessageId := x.clientMessageId, body := x.body, payloadSha256 := x.payloadSha256,
    delivery := .degraded, acceptedAt := acceptedAt }

/-- `ChatMessage.objects.create(...)`; `accepted_at` is the time of the statement. -/
def createMessage (x : ChatSubmission) : M ChatMessage := do
  let acceptedAt ← clockTimestamp
  let n ← Prog.fresh
  Prog.observe (.allocating n)
  insertRow [.pk .message n, .clientMessage x.room x.sender x.clientMessageId]
    (addMessage (x.message n acceptedAt))
  return x.message n acceptedAt

/-- `f"chat.message:{message.pk}"`. -/
def messageEventKey (message : Nat) : String := "chat.message:" ++ toString message

/-- The other party of a product conversation. -/
def ProductConversation.recipient (c : ProductConversation) (sender : Nat) : Nat :=
  if sender == c.seller then c.buyer else c.seller

/-- The notification of a message in a product room. -/
def notifyMessage (message : ChatMessage) : M Unit := do
  let c ← getRow .conversation fun s => s.conversations.find? (·.room == message.room)
  let _ ← createNotification (c.recipient message.sender) (messageEventKey message.pk)
    "PRODUCT_MESSAGE"
    [("message", .str "상품 대화에 새 메시지가 있습니다."), ("room_id", .num message.room),
     ("product_id", .num c.product), ("message_id", .num message.pk)]
  return ()

/-- The answer to a message that is stored already. -/
def replayMessage (stored : ChatMessage) (payloadSha256 : String) : M AcceptedMessage :=
  if stored.payloadSha256 != payloadSha256 then
    raise (.chatReplayConflict "The client message ID has different content.")
  else
    return { serverMessageId := stored.pk, clientMessageId := stored.clientMessageId,
             acceptedAt := stored.acceptedAt, delivery := stored.delivery, replayed := true }

/-- The `with` block of `accept`: a replay, or the new message. -/
def acceptBody (x : ChatSubmission) : M (AcceptedMessage ⊕ ChatMessage) := do
  let (_, room) ← requireMessageAcceptAccess x.room x.sender
  let stored ← fetch fun s => firstByPk (·.pk) (s.messages.filter fun m =>
    m.room == x.room && m.sender == x.sender && m.clientMessageId == x.clientMessageId)
  match stored with
  | some m => do
      let replayed ← replayMessage m x.payloadSha256
      return .inl replayed
  | none => do
      let now ← currentTimestamp
      enforceRateLimits x.sender x.connectionId now
      let message ← createMessage x
      if room.kind == .product then do
        notifyMessage message
        return .inr message
      else return .inr message

/-- One attempt to publish: whether the channel layer took the event. -/
def publish (message : Nat) : M Bool :=
  Prog.tryCatch (do
    atomic (Prog.write (addPublished message))
    let answer ← Prog.fresh
    return answer != 0) fun _ => return false

/-- `accept`, after its transaction. -/
def deliver (message : ChatMessage) : M AcceptedMessage := do
  let live ← publish message.pk
  let accepted (delivery : DeliveryState) : AcceptedMessage :=
    { serverMessageId := message.pk, clientMessageId := message.clientMessageId,
      acceptedAt := message.acceptedAt, delivery := delivery, replayed := false }
  if live then do
    atomic (updateRows .message [message.pk] (setDelivery message.pk .live))
    return accepted .live
  else return accepted .degraded

/-- `DefaultChatService.accept`. -/
def accept (sha256 : String → String) (room sender : Nat) (connectionId clientMessageId : Uuid)
    (body : String) : M AcceptedMessage := do
  Prog.ofAnswer (requireUuid4 connectionId)
  Prog.ofAnswer (requireUuid4 clientMessageId)
  let normalizedBody ← Prog.ofAnswer (normalizeChatText body)
  let payloadHash ← Prog.ofAnswer (canonicalPayloadSha256 sha256 room sender normalizedBody)
  let answer ← atomic (acceptBody ⟨room, sender, connectionId, clientMessageId, normalizedBody,
    payloadHash⟩)
  match answer with
  | .inl replayed => return replayed
  | .inr message => deliver message

/-! ## History -/

structure HistoryMessage where
  serverMessageId : Nat
  senderId : Nat
  senderUsername : String
  body : String
  acceptedAt : Time
  deriving DecidableEq

/-- `project_account_identity(user=...).display_name`. -/
def displayName (user : Option User) : String :=
  match user with
  | none => "탈퇴한 회원"
  | some u => if u.withdrawnAt.isSome || u.username.isEmpty then "탈퇴한 회원" else u.username

def historyMessage (s : Store) (m : ChatMessage) : HistoryMessage :=
  { serverMessageId := m.pk, senderId := m.sender,
    senderUsername := displayName (s.users.find? (·.pk == m.sender)), body := m.body,
    acceptedAt := m.acceptedAt }

/-- The messages of the room after the cursor, by primary key. -/
def messagesAfter (room cursor : Nat) (s : Store) : List ChatMessage :=
  (s.messages.filter fun m => m.room == room && decide (cursor < m.pk)).insertionSort
    fun a b => a.pk ≤ b.pk

def historyPage (room cursor limit : Nat) (s : Store) : List HistoryMessage :=
  ((messagesAfter room cursor s).take limit).map (historyMessage s)

/-- `history_after`, of integers. -/
def historyAfter (room requestingUser : Nat) (cursor limit : Int) : M (List HistoryMessage) := do
  raiseIf (decide (cursor < 0)) (.valueError "Cursor must not be negative.")
  raiseIf (decide (limit < 1) || decide ((HISTORY_MAX_LIMIT : Int) < limit))
    (.valueError "History limit must be between 1 and 100.")
  let _ ← requireActiveUser requestingUser false
  let row ← requireRoomAccess room requestingUser false true
  fetch (historyPage row.pk cursor.toNat limit.toNat)

/-! ## Rooms -/

def addRoom (r : Room) (s : Store) : Store := { s with rooms := s.rooms ++ [r] }
def addConversation (c : ProductConversation) (s : Store) : Store :=
  { s with conversations := s.conversations ++ [c] }
def addParticipants (xs : List RoomParticipant) (s : Store) : Store :=
  { s with participants := s.participants ++ xs }

/-- `RoomParticipant.objects.bulk_create([...])` of two users. -/
def createParticipants (room a b : Nat) : M Unit :=
  insertRow [.participant room a, .participant room b] (addParticipants [⟨room, a⟩, ⟨room, b⟩])

/-- `get_or_create_global_room`. -/
def getOrCreateGlobalRoom : M Room :=
  Prog.tryCatch (do
    let (room, _) ← getOrCreate (fetch fun s => s.rooms.find? (·.kind == .global)) do
      let n ← Prog.fresh
      let room : Room := { pk := n, kind := .global }
      insertRow [.pk .room n, .globalRoom] (addRoom room)
      return room
    return room) fun
    | .integrityError => getRow .room fun s => s.rooms.find? (·.kind == .global)
    | e => raise e

/-- The room, the conversation and the participants of a product and a buyer. -/
def createConversation (product : Product) (buyer : Nat) : M ProductConversation := do
  let room ← Prog.fresh
  insertRow [.pk .room room] (addRoom { pk := room, kind := .product })
  let n ← Prog.fresh
  let conversation : ProductConversation :=
    { pk := n, room := room, product := product.pk, seller := product.owner, buyer := buyer }
  raiseIf (product.owner == buyer) .integrityError
  insertRow [.pk .conversation n, .conversationRoom room,
    .productConversation product.pk product.owner buyer] (addConversation conversation)
  createParticipants room product.owner buyer
  return conversation

/-- The decorated function of `get_or_create_product_conversation`. -/
def getOrCreateProductConversationBody (product actor : Nat) : M ProductConversation := do
  let _ ← requireActiveUser actor false
  let owner ← orUnavailable (getRow .product fun s =>
    (s.products.find? fun r => r.pk == product && r.archivedAt.isNone).map (·.owner))
  raiseIf (actor == owner) chatUnavailable
  let users ← lockActiveParties actor owner
  let buyer ← nextUser users actor
  -- the joined row of the owner is locked already
  let row ← orUnavailable (getForUpdate .product (·.products) (·.pk) fun r =>
    r.pk == product && r.owner == owner && r.archivedAt.isNone)
  let visibility ← effectiveProductVisibility row.pk
  raiseIf (visibility != .visible) chatUnavailable
  let stored ← fetch fun s => s.conversations.find? fun c =>
    c.product == row.pk && c.seller == row.owner && c.buyer == buyer.pk
  match stored with
  | some c => return c
  | none => createConversation row buyer.pk

def getOrCreateProductConversation (product actor : Nat) : M ProductConversation :=
  atomic (getOrCreateProductConversationBody product actor)

/-- The decorated function of `get_or_create_direct_room`. -/
def getOrCreateDirectRoomBody (a b : Nat) : M Room := do
  raiseIf (a == b) (.chatAuthorizationError "A direct room requires another user.")
  let low := min a b
  let high := max a b
  let _ ← lockActiveParties low high
  let (room, created) ← getOrCreate
    (fetch fun s => s.rooms.find? fun r =>
      r.kind == .direct && r.directUserLow == some low && r.directUserHigh == some high) do
      let n ← Prog.fresh
      let room : Room :=
        { pk := n, kind := .direct, directUserLow := some low, directUserHigh := some high }
      insertRow [.pk .room n, .directPair low high] (addRoom room)
      return room
  if created then do
    createParticipants room.pk low high
    return room
  else return room

def getOrCreateDirectRoom (a b : Nat) : M Room := atomic (getOrCreateDirectRoomBody a b)

/-! ## Presence -/

/-- The other party of a room that is not global, as its rows say. -/
def presencePeer (room : Room) (user : Nat) : M (Option Nat) :=
  match room.kind with
  | .product => do
      let c ← getRow .conversation fun s => s.conversations.find? (·.room == room.pk)
      return some (if c.seller == user then c.buyer else c.seller)
  | .global | .direct =>
      return if room.directUserLow == some user then room.directUserHigh else room.directUserLow

/-- `authorized_presence_peers`. -/
def authorizedPresencePeers (room user : Nat) (requireActivePeers : Bool) : M (List Nat) := do
  let _ ← requireActiveUser user false
  let row ← requireRoomAccess room user false requireActivePeers
  raiseIf (row.kind == .global) (.chatAuthorizationError "Presence is unavailable.")
  let peer ← presencePeer row user
  let peers := peer.toList
  if requireActivePeers then do
    requireActiveUsers peers
    return peers
  else return peers

end Market
