import Mathlib.Data.List.Sort
import Marketplace.Moderation
import Marketplace.Transfers

/-! # Management: sanctions and scopes by staff

    `moderation/management.py`: the authority functions, each one transaction, and
    the public functions around them, which audit a refusal in a transaction of its
    own. -/

namespace Market

open TxnProgram

/-- The staff member of the request, as loaded at its start.  `hasPerm` answers
    `actor.has_perm("moderation." + codename)`, `metaPermission` the query for a
    direct `manage_admin_scope` permission. -/
structure Actor where
  pk : Nat
  isActive : Bool
  isStaff : Bool
  isSuperuser : Bool
  hasPerm : String → Bool
  metaPermission : Bool

structure ManagementResult (α : Type) where
  value : α
  created : Bool

def REAUTH_WINDOW : Time := seconds 300

def normalizeManagementReason (p : Platform) (reason : String) : Except Exn String :=
  let normalized := p.normalizeNfc (strip reason)
  if decide (normalized.length < 10) || decide (500 < normalized.length) then
    .error (.managementError "invalid management request")
  else if normalized.toList.any fun c =>
      c.toNat < 32 || (127 ≤ c.toNat && c.toNat ≤ 159) then
    .error (.managementError "invalid management request")
  else .ok normalized

/-- `_require_reauthentication`; no time for a value that is no aware datetime. -/
def requireReauthentication (reauthenticatedAt : Option Time) (databaseNow : Time) :
    M Unit :=
  match reauthenticatedAt with
  | none => raise (.managementError "recent reauthentication required")
  | some t => raiseIf (decide (databaseNow < t) || decide (t + REAUTH_WINDOW < databaseNow))
      (.managementError "recent reauthentication required")

def addAdminAudit (a : AdminAudit) (s : Store) : Store :=
  { s with adminAudits := s.adminAudits ++ [a] }
def addRelease (r : SanctionRelease) (s : Store) : Store :=
  { s with releases := s.releases ++ [r] }

/-- The rows with primary key `pk` replaced by `f` of them. -/
def updateGrant (pk : Nat) (f : AdminScopeGrant → AdminScopeGrant) (s : Store) : Store :=
  { s with scopeGrants := s.scopeGrants.map fun g => if g.pk = pk then f g else g }

/-- `_audit`: whatever goes wrong, the audit is unavailable. -/
def audit (a : AdminAudit) : M Unit :=
  Prog.tryCatch (atomic (insertRow [] (addAdminAudit a))) fun _ =>
    raise (.managementUnavailable "management audit unavailable")

def auditConflict (actor : Nat) (action targetType : String) (target : Nat)
    (reason : String) (before : JsonObject) : M Unit :=
  audit { actor := actor, action := action, targetType := targetType,
          targetId := target, reason := reason, before := before, after := before,
          result := "CONFLICT" }

def auditDenial (actor : Nat) (action targetType : String) (target : Nat)
    (reason : String) : M Unit :=
  audit { actor := actor, action := action, targetType := targetType,
          targetId := target, reason := reason, before := [], after := [],
          result := "DENIED" }

/-- The grant is for the target. -/
def AdminScopeGrant.targets (g : AdminScopeGrant) (targetType : TargetType)
    (target : Nat) : Bool :=
  match targetType with
  | .user => g.targetUser == some target
  | .product => g.targetProduct == some target
  | .review => g.targetReview == some target

def requireScope (actor : Actor) (codename : String) (targetType : TargetType)
    (target : Nat) : M AdminScopeGrant := do
  raiseIf (!actor.isActive || !actor.isStaff || !actor.hasPerm codename)
    (.managementDenied "management permission denied")
  let grant ← fetch fun s => s.scopeGrants.find? fun g =>
    g.staff == actor.pk && g.codename == codename && g.revokedAt.isNone
      && g.targets targetType target
  match grant with
  | some grant => return grant
  | none => raise (.managementNotFound "management target not found")

def hasDirectMetaPermission (actor : Actor) : Bool :=
  actor.isActive && actor.isStaff && actor.isSuperuser && actor.metaPermission

/-! ## Sanctions -/

/-- The locked target of `apply_sanction`: its version. -/
def lockSanctionTarget (targetType : TargetType) (target : Nat) : M Nat :=
  Prog.tryCatch
    (match targetType with
      | .user => do
          let user ← getForUpdate .user (·.users) (·.pk) (·.pk == target)
          return user.authEpoch
      | .product | .review => do
          let product ← getForUpdate .product (·.products) (·.pk) (·.pk == target)
          return product.version) fun
    | .doesNotExist _ => raise (.managementNotFound "management target not found")
    | e => raise e

def TargetType.actionKind : TargetType → ActionKind
  | .user => .userDormancy
  | .product | .review => .productHide

/-- The insert of `apply_sanction` and its audit. -/
def sanctionTarget (actor : Actor) (targetType : TargetType) (target : Nat)
    (reason : String) (now : Time) (before : JsonObject) :
    M (ManagementResult ModerationAction) := do
  Prog.observe (.sanctioning targetType target now now)
  let action ← createAction targetType target now
  audit { actor := actor.pk, action := "apply", targetType := targetType.text,
          targetId := target, reason := reason, before := before,
          after := [("active", .bool true), ("sanction_id", .num action.pk)],
          result := "SUCCESS" }
  return ⟨action, true⟩

/-- The `with` block of the authority of `apply_sanction`. -/
def applySanctionBody (actor : Actor) (targetType : TargetType) (target : Nat)
    (reason : String) (version : Int) (reauthenticatedAt : Option Time) :
    M (ManagementResult ModerationAction) := do
  let now ← clockTimestamp
  requireReauthentication reauthenticatedAt now
  let currentVersion ← lockSanctionTarget targetType target
  let _ ← requireScope actor "apply_sanction" targetType target
  let before := [("active", .bool false), ("version", .num currentVersion)]
  if version != currentVersion then do
    auditConflict actor.pk "apply" targetType.text target reason before
    raise (.managementConflict "stale management request")
  else do
    let active ← fetch fun s => firstByPk (·.pk) (s.actions.filter fun a =>
      a.kind == targetType.actionKind && a.inWindow now && !released s a
        && a.targets targetType target)
    match active with
    | some action => return ⟨action, false⟩
    | none => sanctionTarget actor targetType target reason now before

/-- The authority of `apply_sanction`. -/
def applySanctionAuthority (p : Platform) (actor : Actor) (targetType : TargetType)
    (target : Nat) (reason : String) (version : Int) (reauthenticatedAt : Option Time) :
    M (ManagementResult ModerationAction) := do
  let normalized ← Prog.ofAnswer (normalizeManagementReason p reason)
  raiseIf (targetType == .review) (.managementError "invalid management request")
  atomic (applySanctionBody actor targetType target normalized version reauthenticatedAt)

/-- `apply_sanction`. -/
def applySanction (p : Platform) (actor : Actor) (targetType : TargetType)
    (target : Nat) (reason : String) (version : Int) (reauthenticatedAt : Option Time) :
    M (ManagementResult ModerationAction) := do
  let normalized ← Prog.ofAnswer (normalizeManagementReason p reason)
  Prog.tryCatch
    (applySanctionAuthority p actor targetType target normalized version reauthenticatedAt)
    fun
    | .managementConflict m => do
        auditConflict actor.pk "apply" targetType.text target normalized
          [("version", .num version)]
        raise (.managementConflict m)
    | .managementDenied m => do
        auditDenial actor.pk "apply" targetType.text target normalized
        raise (.managementDenied m)
    | .managementNotFound m => do
        auditDenial actor.pk "apply" targetType.text target normalized
        raise (.managementNotFound m)
    | e => raise e

/-- The target of an action: the user when there is one, else the product. -/
def ModerationAction.target (a : ModerationAction) : TargetType × Nat :=
  match a.targetUser with
  | some n => (.user, n)
  | none => (.product, a.targetProduct.getD 0)

/-- The release of a locked action that has none, and its audit. -/
def releaseAction (actor : Actor) (action : ModerationAction) (reason : String)
    (before : JsonObject) : M (ManagementResult SanctionRelease) := do
  let release : SanctionRelease :=
    { action := action.pk, actor := actor.pk, reason := reason }
  insertRow [.releaseAction action.pk] (addRelease release)
  audit { actor := actor.pk, action := "release", targetType := action.target.1.text,
          targetId := action.target.2, reason := reason, before := before,
          after := [("active", .bool false), ("sanction_id", .num action.pk)],
          result := "SUCCESS" }
  return ⟨release, true⟩

/-- The `with` block of the authority of `release_sanction`. -/
def releaseSanctionBody (actor : Actor) (sanction : Nat) (reason : String)
    (version : Int) (reauthenticatedAt : Option Time) :
    M (ManagementResult SanctionRelease) := do
  let now ← clockTimestamp
  requireReauthentication reauthenticatedAt now
  let action ← Prog.tryCatch
    (getForUpdate .action (·.actions) (·.pk) (·.pk == sanction)) fun
    | .doesNotExist _ => raise (.managementNotFound "management target not found")
    | e => raise e
  let _ ← requireScope actor "release_sanction" action.target.1 action.target.2
  let before := [("active", .bool (action.inWindow now)), ("sanction_id", .num action.pk)]
  if version != action.pk then do
    auditConflict actor.pk "release" action.target.1.text action.target.2 reason before
    raise (.managementConflict "stale management request")
  else do
    let existing ← fetch fun s => s.releases.find? (·.action == action.pk)
    match existing with
    | some release => return ⟨release, false⟩
    | none =>
        if action.expiresAt ≤ now then do
          auditConflict actor.pk "release" action.target.1.text action.target.2 reason
            before
          raise (.managementConflict "sanction has expired")
        else releaseAction actor action reason before

/-- The authority of `release_sanction`. -/
def releaseSanctionAuthority (p : Platform) (actor : Actor) (sanction : Nat)
    (reason : String) (version : Int) (reauthenticatedAt : Option Time) :
    M (ManagementResult SanctionRelease) := do
  let normalized ← Prog.ofAnswer (normalizeManagementReason p reason)
  atomic (releaseSanctionBody actor sanction normalized version reauthenticatedAt)

/-- What the audit of a refused release says of its target. -/
def releaseTarget (sanction : Nat) : M (String × Nat) := do
  let action ← fetch fun s => firstByPk (·.pk) (s.actions.filter (·.pk == sanction))
  return match action with
    | some action => (action.target.1.text, action.target.2)
    | none => ("SANCTION", sanction)

/-- `release_sanction`. -/
def releaseSanction (p : Platform) (actor : Actor) (sanction : Nat) (reason : String)
    (version : Int) (reauthenticatedAt : Option Time) :
    M (ManagementResult SanctionRelease) := do
  let normalized ← Prog.ofAnswer (normalizeManagementReason p reason)
  let denied (e : Exn) : M (ManagementResult SanctionRelease) := do
    let (targetType, target) ← releaseTarget sanction
    auditDenial actor.pk "release" targetType target normalized
    raise e
  Prog.tryCatch
    (releaseSanctionAuthority p actor sanction normalized version reauthenticatedAt) fun
    | .managementConflict m => do
        let (targetType, target) ← releaseTarget sanction
        auditConflict actor.pk "release" targetType target normalized
          [("sanction_id", .num sanction), ("version", .num version)]
        raise (.managementConflict m)
    | .managementDenied m => denied (.managementDenied m)
    | .managementNotFound m => denied (.managementNotFound m)
    | e => raise e

/-! ## Scopes -/

/-- The target of a grant. -/
def AdminScopeGrant.target (g : AdminScopeGrant) : TargetType × Nat :=
  match g.targetUser, g.targetProduct with
  | some n, _ => (.user, n)
  | none, some n => (.product, n)
  | none, none => (.review, g.targetReview.getD 0)

/-- `AdminScopeGrant.Codename.values`. -/
def SCOPE_CODENAMES : List String :=
  ["view_report", "apply_sanction", "release_sanction", "view_admin_audit", "hide_review",
    "restore_review"]

/-- `model.objects.filter(pk=target_id).exists()` of the target's model. -/
def targetExists (targetType : TargetType) (target : Nat) (s : Store) : Bool :=
  match targetType with
  | .user => s.users.any (·.pk == target)
  | .product => s.products.any (·.pk == target)
  | .review => s.reviews.any (·.pk == target)

/-- The partial unique index over the active grants for targets of the type. -/
def scopeKey (staff : Nat) (codename : String) (targetType : TargetType) (target : Nat) :
    Index :=
  match targetType with
  | .user => .scopeUser staff codename target
  | .product => .scopeProduct staff codename target
  | .review => .scopeReview staff codename target

/-- The row that `grant_scope` creates; `_target_filter` names its target column. -/
def newGrant (n actor staff : Nat) (codename : String) (targetType : TargetType)
    (target : Nat) : AdminScopeGrant :=
  match targetType with
  | .user => { pk := n, staff := staff, codename := codename, targetUser := some target,
               grantedBy := actor }
  | .product => { pk := n, staff := staff, codename := codename,
                  targetProduct := some target, grantedBy := actor }
  | .review => { pk := n, staff := staff, codename := codename,
                 targetReview := some target, grantedBy := actor }

def addGrant (g : AdminScopeGrant) (s : Store) : Store :=
  { s with scopeGrants := s.scopeGrants ++ [g] }

/-- The insert of `grant_scope` and its audit. -/
def createGrant (actor : Actor) (staff : Nat) (codename : String) (targetType : TargetType)
    (target : Nat) (reason : String) : M (ManagementResult AdminScopeGrant) := do
  let n ← Prog.fresh
  let grant := newGrant n actor.pk staff codename targetType target
  Prog.tryCatch
    (insertRow [.pk .scopeGrant n, scopeKey staff codename targetType target]
      (addGrant grant)) fun
    | .integrityError => raise (.managementConflict "scope already exists")
    | e => raise e
  audit { actor := actor.pk, action := "grant", targetType := targetType.text,
          targetId := target, reason := reason,
          before := [("staff_id", .num staff), ("active", .bool false)],
          after := [("staff_id", .num staff), ("active", .bool true),
            ("grant_id", .num grant.pk)],
          result := "SUCCESS" }
  return ⟨grant, true⟩

/-- The `with` block of the authority of `grant_scope`. -/
def grantScopeBody (actor : Actor) (staff : Nat) (codename : String)
    (targetType : TargetType) (target : Nat) (reason : String) (version : Int)
    (reauthenticatedAt : Option Time) : M (ManagementResult AdminScopeGrant) := do
  let now ← clockTimestamp
  requireReauthentication reauthenticatedAt now
  raiseIf (!hasDirectMetaPermission actor)
    (.managementDenied "management permission denied")
  let row ← Prog.tryCatch
    (getForUpdate .user (·.users) (·.pk) fun u => u.pk == staff && u.isActive && u.isStaff) fun
    | .doesNotExist _ => raise (.managementNotFound "management target not found")
    | e => raise e
  raiseIf (actor.pk == row.pk) (.managementDenied "self scope changes are forbidden")
  if (row.authEpoch : Int) != version then do
    auditConflict actor.pk "grant" targetType.text target reason
      [("staff_id", .num row.pk), ("version", .num row.authEpoch)]
    raise (.managementConflict "stale management request")
  else do
    let found ← fetch (targetExists targetType target)
    raiseIf (!found) (.managementNotFound "management target not found")
    createGrant actor row.pk codename targetType target reason

/-- The authority of `grant_scope`. -/
def grantScopeAuthority (p : Platform) (actor : Actor) (staff : Nat) (codename : String)
    (targetType : TargetType) (target : Nat) (reason : String) (version : Int)
    (reauthenticatedAt : Option Time) : M (ManagementResult AdminScopeGrant) := do
  let normalized ← Prog.ofAnswer (normalizeManagementReason p reason)
  raiseIf (!SCOPE_CODENAMES.contains codename) (.managementError "invalid management request")
  atomic (grantScopeBody actor staff codename targetType target normalized version
    reauthenticatedAt)

/-- `grant_scope`. -/
def grantScope (p : Platform) (actor : Actor) (staff : Nat) (codename : String)
    (targetType : TargetType) (target : Nat) (reason : String) (version : Int)
    (reauthenticatedAt : Option Time) : M (ManagementResult AdminScopeGrant) := do
  let normalized ← Prog.ofAnswer (normalizeManagementReason p reason)
  Prog.tryCatch
    (grantScopeAuthority p actor staff codename targetType target normalized version
      reauthenticatedAt) fun
    | .managementConflict m => do
        auditConflict actor.pk "grant" targetType.text target normalized
          [("staff_id", .num staff), ("version", .num version)]
        raise (.managementConflict m)
    | .managementDenied m => do
        auditDenial actor.pk "grant" targetType.text target normalized
        raise (.managementDenied m)
    | .managementNotFound m => do
        auditDenial actor.pk "grant" targetType.text target normalized
        raise (.managementNotFound m)
    | e => raise e

/-- The revocation of a locked grant, and its audit. -/
def revokeGrant (actor : Actor) (grant : AdminScopeGrant) (reason : String) (now : Time) :
    M (ManagementResult AdminScopeGrant) := do
  updateRows .scopeGrant [grant.pk] (updateGrant grant.pk fun g =>
    { g with revokedAt := some now, revokedBy := some actor.pk, version := g.version + 1 })
  Prog.observe (.bumping grant.staff)
  updateRows .user [grant.staff] (bumpAuthEpoch grant.staff)
  let stored ← getRow .scopeGrant fun s => s.scopeGrants.find? (·.pk == grant.pk)
  audit { actor := actor.pk, action := "revoke", targetType := grant.target.1.text,
          targetId := grant.target.2, reason := reason,
          before := [("grant_id", .num grant.pk), ("active", .bool true)],
          after := [("grant_id", .num grant.pk), ("active", .bool false)],
          result := "SUCCESS" }
  return ⟨stored, true⟩

/-- The `with` block of the authority of `revoke_scope`; the joined staff row is
    locked with the grant. -/
def revokeScopeBody (actor : Actor) (grant : Nat) (reason : String) (version : Int)
    (reauthenticatedAt : Option Time) : M (ManagementResult AdminScopeGrant) := do
  let now ← clockTimestamp
  requireReauthentication reauthenticatedAt now
  raiseIf (!hasDirectMetaPermission actor)
    (.managementDenied "management permission denied")
  let row ← Prog.tryCatch (do
    let row ← getForUpdate .scopeGrant (·.scopeGrants) (·.pk) (·.pk == grant)
    Prog.acquire (.row .user row.staff)
    return row) fun
    | .doesNotExist _ => raise (.managementNotFound "management target not found")
    | e => raise e
  raiseIf (actor.pk == row.staff) (.managementDenied "self scope changes are forbidden")
  if (row.version : Int) != version then do
    auditConflict actor.pk "revoke" row.target.1.text row.target.2 reason
      [("grant_id", .num row.pk), ("version", .num row.version)]
    raise (.managementConflict "stale management request")
  else if row.revokedAt.isSome then return ⟨row, false⟩
  else revokeGrant actor row reason now

/-- The authority of `revoke_scope`. -/
def revokeScopeAuthority (p : Platform) (actor : Actor) (grant : Nat) (reason : String)
    (version : Int) (reauthenticatedAt : Option Time) :
    M (ManagementResult AdminScopeGrant) := do
  let normalized ← Prog.ofAnswer (normalizeManagementReason p reason)
  atomic (revokeScopeBody actor grant normalized version reauthenticatedAt)

/-- What the audit of a refused revocation says of its target. -/
def revokeTarget (grant : Nat) : M (String × Nat) := do
  let row ← fetch fun s => firstByPk (·.pk) (s.scopeGrants.filter (·.pk == grant))
  return match row with
    | some row => (row.target.1.text, row.target.2)
    | none => ("SCOPE", grant)

/-- `revoke_scope`. -/
def revokeScope (p : Platform) (actor : Actor) (grant : Nat) (reason : String)
    (version : Int) (reauthenticatedAt : Option Time) :
    M (ManagementResult AdminScopeGrant) := do
  let normalized ← Prog.ofAnswer (normalizeManagementReason p reason)
  let denied (e : Exn) : M (ManagementResult AdminScopeGrant) := do
    let (targetType, target) ← revokeTarget grant
    auditDenial actor.pk "revoke" targetType target normalized
    raise e
  Prog.tryCatch
    (revokeScopeAuthority p actor grant normalized version reauthenticatedAt) fun
    | .managementConflict m => do
        let (targetType, target) ← revokeTarget grant
        auditConflict actor.pk "revoke" targetType target normalized
          [("grant_id", .num grant), ("version", .num version)]
        raise (.managementConflict m)
    | .managementDenied m => denied (.managementDenied m)
    | .managementNotFound m => denied (.managementNotFound m)
    | e => raise e

end Market
