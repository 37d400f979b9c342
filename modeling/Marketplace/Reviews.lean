import Marketplace.Management
import Marketplace.Trades

/-! # Reviews and their visibility

    `create_review` and `public_reviews` of `trades/services.py`, and
    `set_review_visibility` of `moderation/management.py`. -/

namespace Market

open TxnProgram

/-! ## Writing a review -/

structure ReviewCreation where
  review : Review
  created : Bool

/-- `_normalize_review_body`. -/
def normalizeReviewBody (p : Platform) (body : String) : Except Exn String :=
  let normalized := p.normalizeNfc (strip body)
  if decide (normalized.length < 1) || decide (1000 < normalized.length) then
    .error (.reviewAuthorityError "review cannot be accepted")
  else if normalized.toList.any fun c =>
      c.toNat < 32 || (127 ≤ c.toNat && c.toNat ≤ 159) then
    .error (.reviewAuthorityError "review cannot be accepted")
  else .ok normalized

def addReview (r : Review) (s : Store) : Store := { s with reviews := s.reviews ++ [r] }

/-- The checks of the table: distinct parties, the range of the rating, and some body. -/
def Review.consistent (r : Review) : Bool :=
  r.author != r.subject && decide (1 ≤ r.rating) && decide (r.rating ≤ 5) && !r.body.isEmpty

/-- The query of the `get_or_create`. -/
def reviewOf (trade author : Nat) (s : Store) : Option Review :=
  s.reviews.find? fun r => r.trade == trade && r.author == author

/-- The insert of the `get_or_create`. -/
def insertReview (trade author subject rating : Nat) (body : String) : M Review := do
  let n ← Prog.fresh
  let row : Review := { pk := n, trade, author, subject, rating, body }
  raiseIf (!row.consistent) .integrityError
  insertRow [.pk .review n, .reviewDirection trade author] (addReview row)
  return row

/-- Who a review by the actor is about; nobody when the trade cannot be reviewed. -/
def reviewSubject (trade : Trade) (actor : Nat) : Option Nat :=
  match trade.kind, trade.status, trade.buyer with
  | .standard, .completed, some buyer =>
      if actor == trade.seller then some buyer
      else if actor == buyer then some trade.seller
      else none
  | _, _, _ => none

/-- The `with` block of `create_review`. -/
def createReviewBody (actor trade rating : Nat) (body : String) : M ReviewCreation := do
  let row ← Prog.tryCatch (getForUpdate .trade (·.trades) (·.pk) (·.pk == trade)) fun
    | .doesNotExist _ => raise (.reviewAuthorityError "review cannot be accepted")
    | e => raise e
  match reviewSubject row actor with
  | none => raise (.reviewAuthorityError "review cannot be accepted")
  | some subject => do
      let (review, created) ← Prog.tryCatch
        (getOrCreate (fetch (reviewOf row.pk actor))
          (insertReview row.pk actor subject rating body))
        fun
        | .integrityError => raise (.reviewAuthorityError "review cannot be accepted")
        | e => raise e
      raiseIf (!created && (review.subject != subject || review.rating != rating
        || review.body != body)) (.reviewAuthorityError "review replay does not match")
      return ⟨review, created⟩

/-- `create_review`; the actor is the user of the request, or nobody. -/
def createReview (p : Platform) (actor : Option User) (trade rating : Int) (body : String) :
    M ReviewCreation :=
  match actor with
  | none => raise (.reviewAuthorityError "review cannot be accepted")
  | some user => do
      raiseIf (decide (trade ≤ 0) || decide (rating < 1) || decide (5 < rating) || !user.isActive)
        (.reviewAuthorityError "review cannot be accepted")
      let normalized ← Prog.ofAnswer (normalizeReviewBody p body)
      atomic (createReviewBody user.pk trade.toNat rating.toNat normalized)

/-! ## Visibility -/

def VisibilityKind.text : VisibilityKind → String
  | .hide => "HIDE"
  | .restore => "RESTORE"

/-- `kind.lower()`. -/
def VisibilityKind.action : VisibilityKind → String
  | .hide => "hide"
  | .restore => "restore"

def VisibilityKind.codename : VisibilityKind → String
  | .hide => "hide_review"
  | .restore => "restore_review"

def addVisibilityAction (a : ReviewVisibilityAction) (s : Store) : Store :=
  { s with visibilityActions := s.visibilityActions ++ [a] }

/-- The actions about a review. -/
def decisionsOf (review : Nat) (s : Store) : List ReviewVisibilityAction :=
  s.visibilityActions.filter (·.review == review)

/-- `visibility_actions.order_by("-created_at", "-pk").first()`. -/
def latestDecision (review : Nat) (s : Store) : Option ReviewVisibilityAction :=
  ((decisionsOf review s).insertionSort
    (descBy ReviewVisibilityAction.createdAt ReviewVisibilityAction.pk)).head?

/-- `public_reviews`. -/
def publicReviews (s : Store) (queryset : List Review) : List Review :=
  queryset.filter fun r =>
    let latestVisibility := (latestDecision r.pk s).map (·.kind)
    sqlHolds (sqlOr (isNull latestVisibility) (sqlNot (sqlEq latestVisibility .hide)))

/-- The next value of the sequence of a table: it has given those of the rows that are seen
    before. -/
def nextValue {ρ : Type} (rows : Store → List ρ) (pk : ρ → Nat) : M Nat := do
  let skipped ← Prog.fresh
  let given ← fetch fun s => ((rows s).map pk).foldr max 0
  return given + 1 + skipped

/-- `ReviewVisibilityAction.objects.create(...)`; `created_at` is the time of the
    statement. -/
def createVisibilityAction (actor review : Nat) (kind : VisibilityKind) (reason : String)
    (key : Uuid) : M ReviewVisibilityAction := do
  Prog.observe (.deciding review)
  let createdAt ← clockTimestamp
  Prog.observe (.deciding review)
  let n ← nextValue (·.visibilityActions) (·.pk)
  let row : ReviewVisibilityAction :=
    { pk := n, review, actor, kind, reason, idempotencyKey := key, createdAt }
  insertRow [.pk .visibilityAction n, .visibilityKey key] (addVisibilityAction row)
  return row

/-- The insert of `set_review_visibility` and its audit. -/
def decideVisibility (actor : Actor) (review : Nat) (kind : VisibilityKind) (reason : String)
    (key : Uuid) (latest : Option ReviewVisibilityAction) :
    M (ManagementResult ReviewVisibilityAction) := do
  let action ← createVisibilityAction actor.pk review kind reason key
  audit { actor := actor.pk, action := kind.action, targetType := "REVIEW", targetId := review,
          reason := reason,
          before := [("visibility", .str ((latest.map (·.kind.text)).getD "VISIBLE"))],
          after := [("visibility", .str kind.text), ("action_id", .num action.pk)],
          result := "SUCCESS" }
  return ⟨action, true⟩

/-- What follows the checks of `set_review_visibility`. -/
def applyVisibility (actor : Actor) (review : Nat) (kind : VisibilityKind) (reason : String)
    (key : Uuid) : M (ManagementResult ReviewVisibilityAction) := do
  let replay ← fetch fun s => s.visibilityActions.find? (·.idempotencyKey == key)
  match replay with
  | some replay => do
      raiseIf (replay.review != review || replay.kind != kind)
        (.managementConflict "management replay does not match")
      return ⟨replay, false⟩
  | none => do
      let latest ← fetch (latestDecision review)
      match latest with
      | some latest =>
          if latest.kind == kind then return ⟨latest, false⟩
          else decideVisibility actor review kind reason key (some latest)
      | none => decideVisibility actor review kind reason key none

/-- The checks of `set_review_visibility`, the first one under no lock: who asks, and about
    which review. -/
def visibilityTarget (actor : Actor) (review : Nat) (kind : VisibilityKind)
    (reauthenticatedAt : Option Time) : M Review := do
  let now ← clockTimestamp
  requireReauthentication reauthenticatedAt now
  let row ← Prog.tryCatch (getForUpdate .review (·.reviews) (·.pk) (·.pk == review)) fun
    | .doesNotExist _ => raise (.managementNotFound "management target not found")
    | e => raise e
  let _ ← requireScope actor kind.codename .review row.pk
  let reported ← fetch fun s => s.reports.any (·.targetReview == some row.pk)
  raiseIf (!reported) (.managementNotFound "management target not found")
  return row

/-- The `with` block of `set_review_visibility`. -/
def setReviewVisibilityBody (actor : Actor) (review : Nat) (kind : VisibilityKind)
    (reason : String) (key : Uuid) (reauthenticatedAt : Option Time) :
    M (ManagementResult ReviewVisibilityAction) := do
  let row ← visibilityTarget actor review kind reauthenticatedAt
  applyVisibility actor row.pk kind reason key

/-- `set_review_visibility`. -/
def setReviewVisibility (p : Platform) (actor : Actor) (review : Nat) (kind : VisibilityKind)
    (reason : String) (key : Uuid) (reauthenticatedAt : Option Time) :
    M (ManagementResult ReviewVisibilityAction) := do
  let normalized ← Prog.ofAnswer (normalizeManagementReason p reason)
  atomic (setReviewVisibilityBody actor review kind normalized key reauthenticatedAt)

end Market
