import Mathlib.Data.List.Sort
import Marketplace.Store

/-! # Moderation: status, visibility, reports and sanctions

    `moderation/services.py`, `policies.py` and `management.py`.  The status of a
    user and the visibility of a product are computed from the history of
    `ModerationAction` rows and their releases at database time. -/

namespace Market

open TxnProgram

/-! ## Policies -/

def MIN_REPORTER_AGE : Time := days 7
def ACTION_DURATION : Time := days 7
def INDEPENDENT_REPORTER_THRESHOLD : Nat := 5
def USER_CONTEXT_THRESHOLD : Nat := 2

/-- `USER_CONTEXTS`. -/
def userContexts : List ReportContext :=
  [.profile, .productInteraction, .globalChat, .directChat]

def validateReportContext (targetType : TargetType) (context : ReportContext) :
    Except Exn Unit :=
  let allowed := match targetType with
    | .product => [ReportContext.product]
    | .user => userContexts
    | .review => [.review]
  if allowed.contains context then .ok ()
  else .error (.moderationPolicyError "report context is invalid for the target type")

def isReporterEligible (joinedAt : Time) (isActive : Bool) (databaseNow : Time) : Bool :=
  isActive && joinedAt + MIN_REPORTER_AGE ≤ databaseNow

/-- The loop of `qualifies_for_action`: every context fits the target, and no
    reporter is counted in two contexts. -/
def seenReporters (targetType : TargetType) :
    List (ReportContext × List Nat) → List Nat → Except Exn (List Nat)
  | [], seen => .ok seen
  | (context, reporters) :: rest, seen => do
      validateReportContext targetType context
      if reporters.any seen.contains then
        .error (.moderationPolicyError "a reporter cannot contribute in multiple contexts")
      else seenReporters targetType rest (seen ++ reporters)

/-- `qualifies_for_action`; a context's value is its set of reporters, listed once
    each. -/
def qualifiesForAction (targetType : TargetType)
    (byContext : List (ReportContext × List Nat)) : Except Exn Bool := do
  let seen ← seenReporters targetType byContext []
  match targetType with
  | .review => .ok false
  | .product =>
      .ok (decide (((byContext.lookup .product).getD []).length
        ≥ INDEPENDENT_REPORTER_THRESHOLD))
  | .user =>
      let distinct := byContext.filter fun e =>
        userContexts.contains e.1 && !e.2.isEmpty
      .ok (decide (seen.length ≥ INDEPENDENT_REPORTER_THRESHOLD)
        && decide (distinct.length ≥ USER_CONTEXT_THRESHOLD))

/-! ## Status and visibility -/

inductive EffectiveUserStatus where
  | active | dormant
  deriving DecidableEq

inductive EffectiveProductVisibility where
  | visible | hidden
  deriving DecidableEq

/-- The window of an action, `starts_at <= t < expires_at`. -/
def ModerationAction.inWindow (a : ModerationAction) (t : Time) : Bool :=
  a.startsAt ≤ t && t < a.expiresAt

/-- The action has a `SanctionRelease`. -/
def released (s : Store) (a : ModerationAction) : Bool :=
  s.releases.any (·.action == a.pk)

/-- `_active_actions()` at database time `t`. -/
def activeActions (t : Time) (s : Store) : List ModerationAction :=
  s.actions.filter fun a => a.inWindow t && !released s a

/-- The action is a dormancy of the user. -/
def ModerationAction.isDormancyOf (a : ModerationAction) (user : Nat) : Bool :=
  a.kind == .userDormancy && a.targetUser == some user

/-- The action is a hide of the product. -/
def ModerationAction.isHideOf (a : ModerationAction) (product : Nat) : Bool :=
  a.kind == .productHide && a.targetProduct == some product

def effectiveUserStatus (user : Nat) : M EffectiveUserStatus := do
  let dormant ← fetchNow fun t s => (activeActions t s).any (·.isDormancyOf user)
  return if dormant then .dormant else .active

def effectiveProductVisibility (product : Nat) : M EffectiveProductVisibility := do
  let visible ← fetch fun s =>
    s.products.any fun p => p.pk == product && p.archivedAt.isNone
  let hidden ← fetchNow fun t s => (activeActions t s).any (·.isHideOf product)
  return if hidden || !visible then .hidden else .visible

/-- `visible_products(queryset)` at database time `t`. -/
def visibleProducts (t : Time) (s : Store) (queryset : List Product) : List Product :=
  let activeHide := fun (p : Product) =>
    s.actions.any fun a => a.isHideOf p.pk && a.inWindow t
  (queryset.filter (·.archivedAt.isNone)).filter fun p => activeHide p == false

/-! ## Reports -/

/-- Characters that Python's `str.strip()` removes. -/
def isSpace (c : Char) : Bool :=
  let n := c.toNat
  (9 ≤ n && n ≤ 13) || (28 ≤ n && n ≤ 32) || n == 0x85 || n == 0xa0 || n == 0x1680
    || (0x2000 ≤ n && n ≤ 0x200a) || n == 0x2028 || n == 0x2029 || n == 0x202f
    || n == 0x205f || n == 0x3000

/-- `str.strip()`. -/
def strip (s : String) : String :=
  String.ofList ((s.toList.dropWhile isSpace).reverse.dropWhile isSpace).reverse

/-- `_normalize_reason`. -/
def normalizeReason (reason : String) : Except Exn String :=
  let normalized := strip reason
  if normalized.isEmpty || decide (1000 < normalized.length)
      || normalized.toList.any (fun c => c.toNat < 32 && c != '\n') then
    .error (.reportSubmissionError "report cannot be accepted")
  else .ok normalized

/-- `order_by("pk").first()`. -/
def firstByPk {ρ : Type} (pk : ρ → Nat) (rows : List ρ) : Option ρ :=
  (rows.insertionSort fun a b => pk a ≤ pk b).head?

/-- `order_by("-column", "-pk")`: `a` comes before `b`. -/
def descBy {ρ : Type} (column pk : ρ → Nat) (a b : ρ) : Prop :=
  column b < column a ∨ (column a = column b ∧ pk b ≤ pk a)

instance {ρ : Type} (column pk : ρ → Nat) (a b : ρ) : Decidable (descBy column pk a b) :=
  inferInstanceAs (Decidable (_ ∨ _))

instance {ρ : Type} (column pk : ρ → Nat) : Std.Total (descBy column pk) where
  total a b := by
    simp only [descBy]
    omega

instance {ρ : Type} (column pk : ρ → Nat) : IsTrans ρ (descBy column pk) where
  trans a b c h h' := by
    simp only [descBy] at h h' ⊢
    omega

def addAction (a : ModerationAction) (s : Store) : Store :=
  { s with actions := s.actions ++ [a] }
def addReport (r : AbuseReport) (s : Store) : Store :=
  { s with reports := s.reports ++ [r] }
def addAuditEvent (e : AuditEvent) (s : Store) : Store :=
  { s with auditEvents := s.auditEvents ++ [e] }

/-- The reports of the list are consumed by an action. -/
def consumeReports (pks : List Nat) (action : Nat) (s : Store) : Store :=
  { s with reports := s.reports.map fun r =>
      if pks.contains r.pk then { r with consumedBy := some action } else r }

/-- The rows with primary key `pk` replaced by `f` of them. -/
def updateUser (pk : Nat) (f : User → User) (s : Store) : Store :=
  { s with users := s.users.map fun u => if u.pk = pk then f u else u }

/-- `update(auth_epoch=F("auth_epoch") + 1)`. -/
def bumpAuthEpoch (pk : Nat) (s : Store) : Store :=
  updateUser pk (fun u => { u with authEpoch := u.authEpoch + 1 }) s

/-- What `_lock_submission_parties` returns. -/
structure SubmissionParties where
  reporter : User
  targetUser : Option User
  targetProduct : Option Product
  databaseNow : Time

def lockSubmissionParties (reporter : Nat) (targetType : TargetType) (target : Nat) :
    M SubmissionParties :=
  match targetType with
  | .user => do
      let users ← selectForUpdate .user (·.users) (·.pk) fun u =>
        u.pk == reporter || u.pk == target
      match users.find? (·.pk == reporter), users.find? (·.pk == target) with
      | some reporterUser, some targetUser => do
          let now ← clockTimestamp
          return ⟨reporterUser, some targetUser, none, now⟩
      | _, _ => raise (.reportSubmissionError "report cannot be accepted")
  | .product | .review => do
      let (product, reporterUser) ← Prog.tryCatch (do
        let product ← getForUpdate .product (·.products) (·.pk) fun r =>
          r.pk == target && r.archivedAt.isNone
        let reporterUser ← getForUpdate .user (·.users) (·.pk) (·.pk == reporter)
        return (product, reporterUser)) fun
        | .doesNotExist _ => raise (.reportSubmissionError "report cannot be accepted")
        | e => raise e
      let now ← clockTimestamp
      return ⟨reporterUser, none, some product, now⟩

def reporterCanContribute (reporter : User) (databaseNow : Time) : M Bool :=
  if isReporterEligible reporter.dateJoined reporter.isActive databaseNow then do
    let status ← effectiveUserStatus reporter.pk
    return status == .active
  else return false

/-- `{"target_user_id": ...}` or `{"target_product_id": ...}`. -/
def ModerationAction.targets (a : ModerationAction) (targetType : TargetType)
    (target : Nat) : Bool :=
  match targetType with
  | .user => a.targetUser == some target
  | .product | .review => a.targetProduct == some target

def AbuseReport.targets (r : AbuseReport) (targetType : TargetType)
    (target : Nat) : Bool :=
  match targetType with
  | .user => r.targetUser == some target
  | .product | .review => r.targetProduct == some target

/-- The first active action of the target, and the time of the statement. -/
def activeActionForTarget (targetType : TargetType) (target : Nat) :
    M (Option ModerationAction × Time) :=
  fetchNow fun t s => (firstByPk (·.pk)
    ((activeActions t s).filter (·.targets targetType target)), t)

/-- `by_context[context].add(reporter)`. -/
def addReporter (context : ReportContext) (reporter : Nat) :
    List (ReportContext × List Nat) → List (ReportContext × List Nat)
  | [] => [(context, [reporter])]
  | (c, reporters) :: rest =>
      if c == context then
        (c, if reporters.contains reporter then reporters else reporters ++ [reporter])
          :: rest
      else (c, reporters) :: addReporter context reporter rest

/-- The loop of `_qualifying_reports`. -/
def eligibleReports (databaseNow : Time) : List (AbuseReport × User) →
    List AbuseReport × List (ReportContext × List Nat) →
    M (List AbuseReport × List (ReportContext × List Nat))
  | [], acc => return acc
  | (report, reporter) :: rest, (eligible, byContext) => do
      let canContribute ← reporterCanContribute reporter databaseNow
      if canContribute then
        eligibleReports databaseNow rest
          (eligible ++ [report], addReporter report.context report.reporter byContext)
      else eligibleReports databaseNow rest (eligible, byContext)

def qualifyingReports (targetType : TargetType) (target : Nat) (databaseNow : Time) :
    M (List AbuseReport × List (ReportContext × List Nat)) := do
  let reports ← fetch fun s =>
    let chosen := s.reports.filter fun r =>
      r.targetType == targetType && r.consumedBy.isNone && r.targets targetType target
        && decide (databaseNow ≤ r.createdAt + days 7) && decide (r.createdAt ≤ databaseNow)
    (chosen.insertionSort fun a b =>
      a.createdAt < b.createdAt ∨ a.createdAt = b.createdAt ∧ a.pk ≤ b.pk).filterMap
        fun r => (s.users.find? (·.pk == r.reporter)).map fun u => (r, u)
  eligibleReports databaseNow reports ([], [])

def TargetType.text : TargetType → String
  | .user => "USER"
  | .product => "PRODUCT"
  | .review => "REVIEW"

/-- `ModerationAction.objects.create` of a seven-day action. -/
def createAction (targetType : TargetType) (target : Nat) (startsAt : Time) :
    M ModerationAction := do
  let n ← Prog.fresh
  let action : ModerationAction := match targetType with
    | .user => { pk := n, kind := .userDormancy, targetUser := some target,
                 startsAt := startsAt, expiresAt := startsAt + ACTION_DURATION }
    | .product | .review =>
        { pk := n, kind := .productHide, targetProduct := some target,
          startsAt := startsAt, expiresAt := startsAt + ACTION_DURATION }
  insertRow [.pk .action n] (addAction action)
  return action

/-- The epoch of a user that became dormant. -/
def revokeSessions (targetType : TargetType) (target : Nat) : M Unit :=
  if targetType == .user then updateRows .user [target] (bumpAuthEpoch target)
  else return ()

/-- The writes of `_evaluate_locked`. -/
def applyAction (targetType : TargetType) (target : Nat) (databaseNow : Time)
    (actor : Option Nat) (reports : List AbuseReport) : M ModerationAction := do
  let action ← createAction targetType target databaseNow
  updateRows .report (reports.map (·.pk))
    (consumeReports (reports.map (·.pk)) action.pk)
  revokeSessions targetType target
  insertRow [.auditAction action.pk] (addAuditEvent
    { eventType := "MODERATION_ACTION_APPLIED", actor := actor,
      action := some action.pk,
      details := [("target_type", .str targetType.text), ("target_id", .num target),
                  ("consumed_report_count", .num reports.length),
                  ("duration_days", .num 7)] })
  return action

def evaluateLocked (targetType : TargetType) (target : Nat) (databaseNow : Time)
    (actor : Option Nat) : M (Option ModerationAction) := do
  let (active, checkedAt) ← activeActionForTarget targetType target
  if active.isSome then return none
  else do
    let (reports, byContext) ← qualifyingReports targetType target databaseNow
    let qualifies ← Prog.ofAnswer (qualifiesForAction targetType byContext)
    if qualifies then do
      Prog.observe (.sanctioning targetType target databaseNow checkedAt)
      let action ← applyAction targetType target databaseNow actor reports
      return some action
    else return none

structure ReportSubmission where
  report : AbuseReport
  action : Option ModerationAction

/-- `AbuseReport.objects.create`, with the check that a report has the one target of
    its type. -/
def createReport (targetType : TargetType) (context : ReportContext) (reason : String)
    (parties : SubmissionParties) : M AbuseReport := do
  let n ← Prog.fresh
  let report : AbuseReport :=
    { pk := n, reporter := parties.reporter.pk, targetType := targetType,
      targetUser := parties.targetUser.map (·.pk),
      targetProduct := parties.targetProduct.map (·.pk), context := context,
      reason := reason, createdAt := parties.databaseNow }
  raiseIf (targetType == .review) .integrityError
  insertRow (.pk .report n ::
      ((report.targetUser.toList.map (.reporterUser report.reporter)) ++
        report.targetProduct.toList.map (.reporterProduct report.reporter)))
    (addReport report)
  return report

/-- The checks of `submit_report` on the locked parties. -/
def mayReport (parties : SubmissionParties) : M Bool :=
  match parties.targetUser, parties.targetProduct with
  | some target, _ =>
      if target.pk == parties.reporter.pk || !target.isActive then return false
      else do
        let status ← effectiveUserStatus target.pk
        return status == .active
  | none, some product =>
      if product.owner == parties.reporter.pk then return false
      else do
        let visibility ← effectiveProductVisibility product.pk
        return visibility == .visible
  | none, none => return false

/-- The `with` block of `submit_report`. -/
def submitReportBody (reporter : Nat) (targetType : TargetType) (target : Nat)
    (context : ReportContext) (reason : String) : M ReportSubmission := do
  let parties ← lockSubmissionParties reporter targetType target
  let canContribute ← reporterCanContribute parties.reporter parties.databaseNow
  raiseIf (!canContribute) (.reportSubmissionError "report cannot be accepted")
  let allowed ← mayReport parties
  raiseIf (!allowed) (.reportSubmissionError "report cannot be accepted")
  let report ← createReport targetType context reason parties
  let action ← evaluateLocked targetType target parties.databaseNow
    (some parties.reporter.pk)
  return ⟨report, action⟩

def submitReport (reporter : Nat) (targetType : TargetType) (target : Nat)
    (context : ReportContext) (reason : String) : M ReportSubmission :=
  match validateReportContext targetType context with
  | .error _ => raise (.reportSubmissionError "report cannot be accepted")
  | .ok () => do
      let normalized ← Prog.ofAnswer (normalizeReason reason)
      Prog.tryCatch
        (atomic (submitReportBody reporter targetType target context normalized)) fun
        | .integrityError => raise (.duplicateReportError "report cannot be accepted")
        | e => raise e

/-- The locks and checks of `evaluate_threshold`: is the target in good standing? -/
def lockTarget (targetType : TargetType) (target : Nat) : M Bool :=
  match targetType with
  | .user => do
      let user ← Prog.tryCatch
        (getForUpdate .user (·.users) (·.pk) (·.pk == target)) fun
        | .doesNotExist _ => raise (.reportSubmissionError "report cannot be accepted")
        | e => raise e
      if !user.isActive then return false
      else do
        let status ← effectiveUserStatus user.pk
        return status == .active
  | .product | .review => do
      let product ← Prog.tryCatch
        (getForUpdate .product (·.products) (·.pk) fun r =>
          r.pk == target && r.archivedAt.isNone) fun
        | .doesNotExist _ => raise (.reportSubmissionError "report cannot be accepted")
        | e => raise e
      if targetType == .product then do
        let visibility ← effectiveProductVisibility product.pk
        return visibility == .visible
      else return true

/-- The `with` block of `evaluate_threshold`. -/
def evaluateThresholdBody (targetType : TargetType) (target : Nat) :
    M (Option ModerationAction) := do
  let standing ← lockTarget targetType target
  if standing then do
    let now ← clockTimestamp
    evaluateLocked targetType target now none
  else return none

def evaluateThreshold (targetType : TargetType) (target : Nat) :
    M (Option ModerationAction) := atomic (evaluateThresholdBody targetType target)

end Market
