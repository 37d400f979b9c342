import Mathlib.Data.List.Sort
import Marketplace.Moderation

/-! # Products and trades

    The lifecycle of `trades/services.py`, the metric projection of
    `catalog/engagement.py` and `product_delete` of `catalog/views.py`. -/

namespace Market

open TxnProgram

/-! ## Products -/

/-- The rows with a primary key of the list replaced by `f` of them. -/
def updateProducts (pks : List Nat) (f : Product → Product) (s : Store) : Store :=
  { s with products := s.products.map fun r => if pks.contains r.pk then f r else r }

/-- `archived_at=now, version=F("version") + 1, updated_at=...`. -/
def archive (now updatedAt : Time) (r : Product) : Product :=
  { r with archivedAt := some now, version := r.version + 1, updatedAt := updatedAt }

def addMetric (m : ProductMetric) (s : Store) : Store :=
  { s with productMetrics := s.productMetrics ++ [m] }

def setMetric (m : ProductMetric) (s : Store) : Store :=
  { s with productMetrics := s.productMetrics.map fun r =>
      if r.product = m.product then m else r }

/-- The counts of `recompute_product_metric`, one query each. -/
def metricCounts (product : Nat) : M ProductMetric := do
  let favorites ← fetch fun s => (s.favorites.filter (·.product == product)).length
  let views ← fetch fun s => (s.productViews.filter (·.product == product)).length
  let chats ← fetch fun s =>
    ((s.conversations.filter (·.product == product)).map (·.buyer)).dedup.length
  let completed ← fetch fun s =>
    (s.trades.filter fun r => r.product == product && r.status == .completed).length
  return { product := product, favoriteCount := favorites, viewCount := views,
           productChatCount := chats, completedTradeCount := completed }

/-- The decorated part of `recompute_product_metric`, with its `update_or_create`. -/
def recomputeProductMetricBody (product : Nat) : M ProductMetric := do
  let row ← getForUpdate .product (·.products) (·.pk) (·.pk == product)
  let metric ← metricCounts row.pk
  atomic do
    let (_, created) ← getOrCreate
      (firstForUpdate .productMetric (·.productMetrics) (·.product) (·.product == row.pk))
      (do insertRow [.productMetric row.pk] (addMetric metric); return metric)
    if created then return metric
    else do
      updateRows .productMetric [row.pk] (setMetric metric)
      return metric

def recomputeProductMetric (product : Nat) : M ProductMetric :=
  atomic (recomputeProductMetricBody product)

/-- The `with` block of `product_delete`: the HTTP status. -/
def productDeleteBody (user product : Nat) (submittedVersion : Int) : M Nat := do
  let locked ← Prog.tryCatch
    (getForUpdate .product (·.products) (·.pk) fun r =>
      r.pk == product && r.owner == user && r.archivedAt.isNone) fun
    | .doesNotExist _ => raise .http404
    | e => raise e
  if submittedVersion != locked.version then return 409
  else do
    let now ← currentTimestamp
    let updatedAt ← Prog.fresh
    updateRows .product [locked.pk] (updateProducts [locked.pk] (archive now updatedAt))
    return 302

/-- A `POST` to `product_delete` by a logged-in user. -/
def productDelete (user product : Nat) (submittedVersion : Int) : M Nat := do
  let shown ← fetch fun s => s.products.find? fun r =>
    r.pk == product && r.owner == user && r.archivedAt.isNone
  match shown with
  | none => raise .http404
  | some _ => atomic (productDeleteBody user product submittedVersion)

/-! ## Reservations -/

def addTrade (t : Trade) (s : Store) : Store := { s with trades := s.trades ++ [t] }
def addTradeHistory (h : TradeStatusHistory) (s : Store) : Store :=
  { s with tradeHistory := s.tradeHistory ++ [h] }

/-- Some dormancy of one of the users is active: the query of `_lock_active_users`. -/
def anyDormant (users : List Nat) (t : Time) (s : Store) : Bool :=
  s.actions.any fun a => a.kind == .userDormancy
    && (a.targetUser.any users.contains) && a.inWindow t && !released s a

/-- `_lock_active_users`; the locked rows go into a dictionary by primary key. -/
def lockActiveUsers (ids : List Nat) : M (List User) := do
  let users ← selectForUpdate .user (·.users) (·.pk) fun u => ids.contains u.pk
  raiseIf ((users.map (·.pk)).dedup.length != ids.dedup.length) (.tradeError "TRADE_NOT_ALLOWED")
  raiseIf (users.any fun u => !u.isActive || u.withdrawnAt.isSome)
    (.tradeError "TRADE_NOT_ALLOWED")
  let dormant ← fetchNow (anyDormant (users.map (·.pk)))
  raiseIf dormant (.tradeError "TRADE_NOT_ALLOWED")
  return users

/-- The query of `_product_is_hidden`. -/
def productHidden (product : Nat) (t : Time) (s : Store) : Bool :=
  s.actions.any fun a => a.isHideOf product && a.inWindow t && !released s a

def productIsHidden (product : Nat) : M Bool := fetchNow (productHidden product)

structure TradeResult where
  trade : Trade
  created : Bool := false

/-- `_record`. -/
def record (trade : Trade) (oldStatus : Option TradeStatus) (actor : Nat) : M Unit :=
  insertRow [.tradeVersion trade.pk trade.version] (addTradeHistory
    { trade := trade.pk, fromStatus := oldStatus, toStatus := trade.status,
      actor := actor, version := trade.version })

/-- The inserts of `reserve`. -/
def createReservation (actor : Nat) (product : Product) : M TradeResult :=
  Prog.tryCatch (do
    let n ← Prog.fresh
    let trade : Trade := { pk := n, product := product.pk, seller := product.owner,
                           buyer := some actor, status := .reserved }
    insertRow [.pk .trade n, .nonCancelledTrade product.pk] (addTrade trade)
    record trade none actor
    return { trade := trade, created := true }) fun
    | .integrityError => raise (.tradeConflict "TRADE_CONFLICT")
    | e => raise e

/-- The decorated function of `TradeService.reserve`. -/
def reserveBody (actor product : Nat) : M TradeResult := do
  let productRef ← fetch fun s => firstByPk (·.pk) (s.products.filter (·.pk == product))
  match productRef with
  | none => raise (.tradeError "TRADE_NOT_ALLOWED")
  | some productRef =>
      if actor == productRef.owner then raise (.tradeError "TRADE_NOT_ALLOWED")
      else do
        let (hidden, seen, seenAt) ← fetchNow fun t s =>
          (productHidden productRef.pk t s, s.actions, t)
        raiseIf hidden (.tradeError "TRADE_NOT_ALLOWED")
        let _ ← lockActiveUsers [actor, productRef.owner]
        let product ← getForUpdate .product (·.products) (·.pk) (·.pk == product)
        let existing ← firstForUpdate .trade (·.trades) (·.pk) fun t =>
          t.product == product.pk && t.status != .cancelled
        match existing with
        | some existing =>
            if existing.status == .reserved && existing.buyer == some actor then
              return { trade := existing, created := false }
            else raise (.tradeConflict "TRADE_CONFLICT")
        | none => do
            Prog.observe (.reserving product actor seen seenAt)
            createReservation actor product

def reserve (actor product : Nat) : M TradeResult := atomic (reserveBody actor product)

/-! ## Cancellation and completion -/

/-- The rows with the primary key replaced by `f` of them. -/
def updateTrade (n : Nat) (f : Trade → Trade) (s : Store) : Store :=
  { s with trades := s.trades.map fun r => if r.pk = n then f r else r }

/-- `_lock_active_users` of the two parties; `sorted` does not order an id and `None`. -/
def lockParties (trade : Trade) : M (List User) :=
  match trade.buyer with
  | some buyer => lockActiveUsers [trade.seller, buyer]
  | none => raise .typeError

/-- The locks that `cancel` and `complete` take for the trade they found. -/
def lockTrade (ref : Trade) : M Trade := do
  let _ ← lockParties ref
  let _ ← getForUpdate .product (·.products) (·.pk) (·.pk == ref.product)
  getForUpdate .trade (·.trades) (·.pk) (·.pk == ref.pk)

/-- What `cancel` and `complete` do with the locked trade.  An end that was reached
    before is the answer again; another end, or a version that was not expected, is a
    conflict.  `stamp` sets what else the new status brings. -/
def endTrade (actor : Nat) (trade : Trade) (expectedVersion : Option Int)
    (status : TradeStatus) (stamp : M (Trade → Trade)) : M TradeResult :=
  if trade.status == status then return { trade := trade }
  else do
    raiseIf (trade.status != .reserved) (.tradeConflict "TRADE_CONFLICT")
    raiseIf (expectedVersion.any fun v => v != (trade.version : Int))
      (.tradeConflict "TRADE_CONFLICT")
    let set ← stamp
    let ended := fun (r : Trade) => set { r with status := status, version := trade.version + 1 }
    updateRows .trade [trade.pk] (updateTrade trade.pk ended)
    record (ended trade) (some trade.status) actor
    return { trade := ended trade }

def tradeRef (trade : Nat) : M (Option Trade) :=
  fetch fun s => firstByPk (·.pk) (s.trades.filter (·.pk == trade))

/-- The decorated function of `TradeService.cancel`. -/
def cancelBody (actor trade : Nat) (expectedVersion : Option Int) : M TradeResult := do
  match ← tradeRef trade with
  | none => raise (.tradeError "TRADE_NOT_ALLOWED")
  | some ref =>
      if actor != ref.seller && some actor != ref.buyer then
        raise (.tradeError "TRADE_NOT_ALLOWED")
      else do
        let trade ← lockTrade ref
        endTrade actor trade expectedVersion .cancelled (return id)

def cancel (actor trade : Nat) (expectedVersion : Option Int) : M TradeResult :=
  atomic (cancelBody actor trade expectedVersion)

/-- The decorated function of `TradeService.complete`. -/
def completeBody (actor trade : Nat) (expectedVersion : Option Int) : M TradeResult := do
  match ← tradeRef trade with
  | none => raise (.tradeError "TRADE_NOT_ALLOWED")
  | some ref =>
      if actor != ref.seller then raise (.tradeError "TRADE_NOT_ALLOWED")
      else do
        let trade ← lockTrade ref
        endTrade actor trade expectedVersion .completed do
          let now ← timezoneNow
          return fun t => { t with completedAt := some now }

def complete (actor trade : Nat) (expectedVersion : Option Int) : M TradeResult :=
  atomic (completeBody actor trade expectedVersion)

end Market
