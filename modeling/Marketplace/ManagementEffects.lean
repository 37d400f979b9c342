import Marketplace.AloneRules
import Marketplace.LockDiscipline
import Marketplace.Management
import Marketplace.TxnFailure
import Marketplace.TxnSchedule

/-! # What a management command leaves

    A command does its one change together with its audit in one transaction.  When it
    refuses, that transaction is undone, and the public function around it audits the
    refusal in another.  Here this is a fact about every call that has the database to
    itself, whichever of its statements fail. -/

namespace Market

open TxnProgram TxnInterleaving TxnAlone TxnFailure

/-! ## Effects -/

/-- Exactly one audit row was added: what the actor did, with this result. -/
def AuditOf (actor : Nat) (action result : String) (s s' : Store) : Prop :=
  ∃ a : AdminAudit, a.actor = actor ∧ a.action = action ∧ a.result = result ∧
    s' = addAdminAudit a s

/-- What a command leaves of the store `s`, where `change` is what it is for. -/
def CommandLeaves {α : Type} (actor : Nat) (action : String) (change : α → Store → Store → Prop)
    (s : Store) : Except Exn (ManagementResult α) → Store → Prop
  | .ok r, s' =>
      if r.created then ∃ d, change r.value s d ∧ AuditOf actor action "SUCCESS" d s' else s' = s
  | .error (.managementConflict _), s' => AuditOf actor action "CONFLICT" s s'
  | .error (.managementDenied _), s' => AuditOf actor action "DENIED" s s'
  | .error (.managementNotFound _), s' => AuditOf actor action "DENIED" s s'
  | .error _, s' => s' = s

/-- A seven-day sanction of the target, from some moment on. -/
def SanctionAdded (targetType : TargetType) (target : Nat) (action : ModerationAction)
    (s d : Store) : Prop :=
  action.kind = targetType.actionKind ∧ action.targets targetType target = true ∧
    action.expiresAt = action.startsAt + ACTION_DURATION ∧
    (∀ a ∈ s.actions, a.pk ≠ action.pk) ∧ d = addAction action s

/-- The release of a sanction that had none. -/
def ReleaseAdded (actor sanction : Nat) (release : SanctionRelease) (s d : Store) : Prop :=
  (∃ a ∈ s.actions, a.pk = sanction) ∧ release.action = sanction ∧ release.actor = actor ∧
    (∀ r ∈ s.releases, r.action ≠ sanction) ∧ d = addRelease release s

/-- An active grant to another member of staff, for a target that is there, of a scope
    that was not granted. -/
def GrantAdded (actor staff : Nat) (codename : String) (targetType : TargetType) (target : Nat)
    (grant : AdminScopeGrant) (s d : Store) : Prop :=
  (∃ u ∈ s.users, u.pk = staff ∧ u.isActive = true ∧ u.isStaff = true) ∧ actor ≠ staff ∧
    targetExists targetType target s = true ∧
    grant = newGrant grant.pk actor staff codename targetType target ∧
    (∀ g ∈ s.scopeGrants, g.pk ≠ grant.pk) ∧
    (scopeKey staff codename targetType target).present s = false ∧ d = addGrant grant s

/-- An active grant of another member of staff is revoked, in its next version, and the
    epoch of that member is raised by one. -/
def GrantRevoked (actor grant : Nat) (value : AdminScopeGrant) (s d : Store) : Prop :=
  ∃ g ∈ s.scopeGrants, ∃ now, g.pk = grant ∧ g.revokedAt = none ∧ actor ≠ g.staff ∧
    value ∈ d.scopeGrants ∧ value.pk = grant ∧
    d = bumpAuthEpoch g.staff (updateGrant grant (fun g =>
      { g with revokedAt := some now, revokedBy := some actor, version := g.version + 1 }) s)

/-! ## Audits -/

section Audits

variable {s : Store}

/-- Every error counts: an error undoes the transaction, whichever it is. -/
theorem anyFault : FaultsOf ownDatabase fun _ : Exn => True := fun _ _ => trivial

/-- An audit adds its row. -/
theorem does_audit (a : AdminAudit) :
    Does ownDatabase (audit a) s (fun _ s' => s' = addAdminAudit a s) fun _ => True := by
  refine Does.catchAtomic anyFault ((does_insertRow anyFault trivial [] _).mono
    fun _ s' ⟨_, hs⟩ => hs) fun _ _ => Does.raise trivial

/-- Or it says that auditing is unavailable, and nothing changes. -/
theorem performs_audit (a : AdminAudit) :
    Performs ownDatabase (audit a) s fun
      | .ok _, s' => s' = addAdminAudit a s
      | .error e, s' => e = .managementUnavailable "management audit unavailable" ∧ s' = s := by
  refine Performs.tryCatch (P := fun
    | .ok _, s' => s' = addAdminAudit a s
    | .error _, s' => s' = s) ?_ (fun _ _ hs => Performs.raise ⟨rfl, hs⟩) fun _ _ h => h
  refine Performs.atomic anyFault ((does_insertRow anyFault trivial [] _).mono
    fun _ s' ⟨_, hs⟩ => hs) (fun _ _ hs _ => hs) (fun _ _ => rfl) fun _ _ _ _ _ => rfl

variable {α : Type} {actor : Nat} {action : String} {change : α → Store → Store → Prop}

/-- A refusal that is audited and raised again. -/
theorem performs_refusal (a : AdminAudit) (hactor : a.actor = actor) (haction : a.action = action)
    {e : Exn} (he : AuditOf actor action a.result s (addAdminAudit a s) →
      CommandLeaves actor action change s (.error e) (addAdminAudit a s)) :
    Performs ownDatabase (audit a >>= fun _ => (raise e : M (ManagementResult α))) s
      (CommandLeaves actor action change s) := by
  refine Performs.bind (performs_audit a) (fun _ s' hs => Performs.raise ?_) fun x s' ⟨hx, hs⟩ => ?_
  · rw [hs]
    exact he ⟨a, hactor, haction, rfl, rfl⟩
  · rw [hx]
    exact hs

/-- **TWO LAYERS**: the authority commits the change with its audit or leaves the store as
    it was; then the handler of the public function does the rest. -/
theorem performs_command {m : M (ManagementResult α)} {h : Exn → M (ManagementResult α)}
    (hm : Performs ownDatabase m s fun
      | .ok r, s' => CommandLeaves actor action change s (.ok r) s'
      | .error _, s' => s' = s)
    (hh : ∀ e, Performs ownDatabase (h e) s (CommandLeaves actor action change s)) :
    Performs ownDatabase (m.tryCatch h) s (CommandLeaves actor action change s) := by
  refine Performs.tryCatch hm (fun e s' hs => ?_) fun _ _ h => h
  rw [show s' = s from hs]
  exact hh e

/-- The transaction of the authority. -/
theorem performs_authority {m : M (ManagementResult α)}
    (hm : Does ownDatabase m s (fun r s' => CommandLeaves actor action change s (.ok r) s')
      fun _ => True) :
    Performs ownDatabase (atomic m) s fun
      | .ok r, s' => CommandLeaves actor action change s (.ok r) s'
      | .error _, s' => s' = s :=
  Performs.atomic anyFault hm (fun _ _ h _ => h) (fun _ _ => rfl) fun _ _ _ _ _ => rfl

/-- A reason that is refused is refused before anything else. -/
theorem performs_normalized {p : Platform} {reason : String} {f : String → M (ManagementResult α)}
    {P : Except Exn (ManagementResult α) → Store → Prop}
    (herr : ∀ msg, P (.error (.managementError msg)) s)
    (hf : ∀ normalized, Performs ownDatabase (f normalized) s P) :
    Performs ownDatabase (Prog.ofAnswer (normalizeManagementReason p reason) >>= f) s P := by
  cases h : normalizeManagementReason p reason with
  | ok normalized => exact hf normalized
  | error e =>
      refine Performs.raise ?_
      rw [normalizeManagementReason] at h
      split at h
      · cases h
        exact herr _
      · split at h
        · cases h
          exact herr _
        · exact nomatch h

/-- The handler of `apply_sanction` and `grant_scope`, whose target is known. -/
theorem performs_handler {e : Exn} (targetType : String) (target : Nat) (reason : String)
    (before : JsonObject) :
    Performs ownDatabase (match e with
      | .managementConflict m => do
          auditConflict actor action targetType target reason before
          raise (.managementConflict m)
      | .managementDenied m => do
          auditDenial actor action targetType target reason
          raise (.managementDenied m)
      | .managementNotFound m => do
          auditDenial actor action targetType target reason
          raise (.managementNotFound m)
      | e => (raise e : M (ManagementResult α))) s (CommandLeaves actor action change s) := by
  cases e with
  | managementConflict m => exact performs_refusal _ rfl rfl fun h => h
  | managementDenied m => exact performs_refusal _ rfl rfl fun h => h
  | managementNotFound m => exact performs_refusal _ rfl rfl fun h => h
  | _ => exact Performs.raise rfl

end Audits

/-! ## The commands -/

section Commands

variable {s : Store} {p : Platform} {actor : Actor}

/-- A check of times changes nothing. -/
theorem asks_requireReauthentication (reauthenticatedAt : Option Time) (now : Time) :
    Asks ownDatabase (requireReauthentication reauthenticatedAt now) s (fun _ => True)
      fun _ => True := by
  cases reauthenticatedAt with
  | none => exact Asks.raise trivial
  | some t => exact (asks_raiseIf fun _ => trivial).mono fun _ _ => trivial

/-- Nor does the check of the scope. -/
theorem asks_requireScope (codename : String) (targetType : TargetType) (target : Nat) :
    Asks ownDatabase (requireScope actor codename targetType target) s (fun _ => True)
      fun _ => True := by
  refine Asks.bind (asks_raiseIf fun _ => trivial) fun _ _ => ?_
  refine Asks.bind (asks_fetch anyFault _) fun grant _ => ?_
  cases grant with
  | some g => exact Asks.ret trivial
  | none => exact Asks.raise trivial

/-- `.get()` of a locking query, whose `DoesNotExist` is handled. -/
theorem asks_handled {ρ : Type} (t : Table) (rows : Store → List ρ) (pk : ρ → Nat) (q : ρ → Bool)
    {h : Exn → M ρ} (hh : ∀ e, Asks ownDatabase (h e) s (fun _ => False) fun _ => True) :
    Asks ownDatabase (Prog.tryCatch (getForUpdate t rows pk q) h) s
      (fun r => (rows s).find? q = some r) fun _ => True :=
  Asks.tryCatch (asks_getForUpdate anyFault t rows pk q fun _ => trivial) fun e _ =>
    (hh e).mono fun _ h => h.elim

/-- The handler of a lookup turns `DoesNotExist` into a missing target. -/
theorem asks_notFound {α : Type} (e : Exn) :
    Asks ownDatabase (match e with
      | .doesNotExist _ => (raise (.managementNotFound "management target not found") : M α)
      | e => raise e) s (fun _ => False) fun _ => True := by
  cases e <;> exact Asks.raise trivial

/-- Nor do locks. -/
theorem asks_lockSanctionTarget (targetType : TargetType) (target : Nat) :
    Asks ownDatabase (lockSanctionTarget targetType target) s (fun _ => True) fun _ => True := by
  refine Asks.tryCatch (G := fun _ => True) ?_ fun e _ =>
    (asks_notFound e).mono fun _ h => h.elim
  cases targetType with
  | user =>
      exact Asks.bind (asks_getForUpdate anyFault _ _ _ _ fun _ => trivial) fun _ _ =>
        Asks.ret trivial
  | product | review =>
      exact Asks.bind (asks_getForUpdate anyFault _ _ _ _ fun _ => trivial) fun _ _ =>
        Asks.ret trivial

/-- A row whose insert succeeded had a key that was free. -/
theorem pk_free {ρ : Type} {rows : List ρ} {pk : ρ → Nat} {n : Nat}
    (h : rows.any (pk · == n) = false) {r : ρ} (hr : r ∈ rows) : pk r ≠ n := by
  intro hn
  have := List.any_eq_false.mp h r hr
  rw [hn, beq_self_eq_true] at this
  exact this rfl

/-- The sanction and its audit row. -/
theorem does_sanctionTarget (targetType : TargetType) (target : Nat) (reason : String)
    (now : Time) (before : JsonObject) :
    Does ownDatabase (sanctionTarget actor targetType target reason now before) s
      (fun r s' => CommandLeaves actor.pk "apply" (SanctionAdded targetType target) s (.ok r) s')
      fun _ => True := by
  refine Does.look (Asks.observe _) fun _ _ => ?_
  refine Does.bind (P := fun action d => SanctionAdded targetType target action s d)
    (Does.look Asks.fresh fun n _ => ?_) fun action d hadded => ?_
  · cases targetType with
    | user | product | review =>
        refine Does.bind (does_insertRow anyFault trivial _ _) fun _ d ⟨hfree, hd⟩ => Does.ret ?_
        exact ⟨rfl, beq_self_eq_true _, rfl,
          fun a ha => pk_free (hfree _ (List.mem_singleton.mpr rfl)) ha, hd⟩
  · refine Does.bind (does_audit _) fun _ s' hs => Does.ret ?_
    exact ⟨d, hadded, _, rfl, rfl, rfl, hs⟩

/-- A stale command: its audit is undone with everything else. -/
theorem does_conflict {α : Type} (a : AdminAudit) (e : Exn) {P : α → Store → Prop} :
    Does ownDatabase (audit a >>= fun _ => (raise e : M α)) s P fun _ => True :=
  Does.bind (does_audit a) fun _ _ _ => Does.raise trivial

/-- `apply_sanction`, when its transaction is committed. -/
theorem does_applySanctionBody (targetType : TargetType) (target : Nat) (reason : String)
    (version : Int) (reauthenticatedAt : Option Time) :
    Does ownDatabase (applySanctionBody actor targetType target reason version reauthenticatedAt) s
      (fun r s' => CommandLeaves actor.pk "apply" (SanctionAdded targetType target) s (.ok r) s')
      fun _ => True := by
  refine Does.look (asks_clockTimestamp anyFault) fun now _ => ?_
  refine Does.look (asks_requireReauthentication _ _) fun _ _ => ?_
  refine Does.look (asks_lockSanctionTarget _ _) fun current _ => ?_
  refine Does.look (asks_requireScope _ _ _) fun _ _ => ?_
  dsimp only
  split
  · exact does_conflict _ _
  · refine Does.look (asks_fetch anyFault _) fun active _ => ?_
    cases active with
    | some action => exact Does.ret rfl
    | none => exact does_sanctionTarget _ _ _ _ _

/-- **SPECIFICATION** of `apply_sanction`, in both layers. -/
theorem performs_applySanction (targetType : TargetType) (target : Nat) (reason : String)
    (version : Int) (reauthenticatedAt : Option Time) :
    Performs ownDatabase
      (applySanction p actor targetType target reason version reauthenticatedAt) s
      (CommandLeaves actor.pk "apply" (SanctionAdded targetType target) s) := by
  refine performs_normalized (fun _ => rfl) fun normalized => performs_command ?_ fun e =>
    performs_handler _ _ _ _
  refine performs_normalized (fun _ => rfl) fun _ => ?_
  refine Performs.bind (P := fun _ s' => s' = s)
    (Performs.raiseIf (fun _ => rfl) fun _ => rfl) (fun _ s' hs => ?_) fun _ _ hs => hs
  rw [show s' = s from hs]
  exact performs_authority (does_applySanctionBody _ _ _ _ _)

/-- The release and its audit row. -/
theorem does_releaseAction {action : ModerationAction} (hin : action ∈ s.actions)
    (reason : String) (before : JsonObject) :
    Does ownDatabase (releaseAction actor action reason before) s
      (fun r s' => CommandLeaves actor.pk "release" (ReleaseAdded actor.pk action.pk) s (.ok r) s')
      fun _ => True := by
  refine Does.bind (does_insertRow anyFault trivial _ _) fun _ d ⟨hfree, hd⟩ => ?_
  refine Does.bind (does_audit _) fun _ s' hs => Does.ret ?_
  exact ⟨d, ⟨⟨action, hin, rfl⟩, rfl, rfl,
    fun r hr => pk_free (hfree _ (List.mem_singleton.mpr rfl)) hr, hd⟩, _, rfl, rfl, rfl, hs⟩

/-- `release_sanction`, when its transaction is committed. -/
theorem does_releaseSanctionBody (sanction : Nat) (reason : String) (version : Int)
    (reauthenticatedAt : Option Time) :
    Does ownDatabase (releaseSanctionBody actor sanction reason version reauthenticatedAt) s
      (fun r s' => CommandLeaves actor.pk "release" (ReleaseAdded actor.pk sanction) s (.ok r) s')
      fun _ => True := by
  refine Does.look (asks_clockTimestamp anyFault) fun now _ => ?_
  refine Does.look (asks_requireReauthentication _ _) fun _ _ => ?_
  refine Does.look (asks_handled _ _ _ _ asks_notFound) fun action haction => ?_
  have hpk := List.find?_some haction
  rw [beq_iff_eq] at hpk
  refine Does.look (asks_requireScope _ _ _) fun _ _ => ?_
  dsimp only
  split
  · exact does_conflict _ _
  · refine Does.look (asks_fetch anyFault _) fun existing _ => ?_
    cases existing with
    | some release => exact Does.ret rfl
    | none =>
        dsimp only
        split
        · exact does_conflict _ _
        · rw [← hpk]
          exact does_releaseAction (List.mem_of_find?_eq_some haction) _ _

/-- What a handler that looks up `x` first leaves: a failing look-up leaves the store. -/
theorem performs_lookup {α β γ : Type} {action : String} {change : α → Store → Store → Prop}
    {q : Store → β} {g : β → γ} {f : γ → M (ManagementResult α)}
    (hf : ∀ x, Performs ownDatabase (f x) s (CommandLeaves actor.pk action change s)) :
    Performs ownDatabase ((do let r ← fetch q; return g r) >>= f) s
      (CommandLeaves actor.pk action change s) := by
  refine Performs.bind (P := fun
    | .ok _, s' => s' = s
    | .error e, s' => (∃ sqlstate, e = .operationalError sqlstate) ∧ s' = s)
    (Performs.bind (Performs.select (P := fun
      | .ok _, s' => s' = s
      | .error e, s' => (∃ sqlstate, e = .operationalError sqlstate) ∧ s' = s)
      (fun _ => rfl) fun _ hfault => ⟨hfault, rfl⟩) (fun _ s' hs => Performs.ret hs)
      fun _ _ h => h) (fun x s' hs => ?_) fun e s' ⟨⟨_, he⟩, hs⟩ => ?_
  · rw [show s' = s from hs]
    exact hf x
  · rw [he]
    exact hs

/-- **SPECIFICATION** of `release_sanction`, in both layers. -/
theorem performs_releaseSanction (sanction : Nat) (reason : String) (version : Int)
    (reauthenticatedAt : Option Time) :
    Performs ownDatabase (releaseSanction p actor sanction reason version reauthenticatedAt) s
      (CommandLeaves actor.pk "release" (ReleaseAdded actor.pk sanction) s) := by
  refine performs_normalized (fun _ => rfl) fun normalized => performs_command ?_ fun e => ?_
  · exact performs_normalized (fun _ => rfl) fun _ =>
      performs_authority (does_releaseSanctionBody _ _ _ _)
  · cases e with
    | managementConflict m =>
        exact performs_lookup fun _ => performs_refusal _ rfl rfl fun h => h
    | managementDenied m =>
        exact performs_lookup fun _ => performs_refusal _ rfl rfl fun h => h
    | managementNotFound m =>
        exact performs_lookup fun _ => performs_refusal _ rfl rfl fun h => h
    | _ => exact Performs.raise rfl

/-- The grant and its audit row. -/
theorem does_createGrant {staff : Nat} {codename : String} {targetType : TargetType}
    {target : Nat} (hstaff : ∃ u ∈ s.users, u.pk = staff ∧ u.isActive = true ∧ u.isStaff = true)
    (hself : actor.pk ≠ staff) (hexists : targetExists targetType target s = true)
    (reason : String) :
    Does ownDatabase (createGrant actor staff codename targetType target reason) s
      (fun r s' => CommandLeaves actor.pk "grant"
        (GrantAdded actor.pk staff codename targetType target) s (.ok r) s')
      fun _ => True := by
  refine Does.look Asks.fresh fun n _ => ?_
  refine Does.bind (P := fun _ d => GrantAdded actor.pk staff codename targetType target
    (newGrant n actor.pk staff codename targetType target) s d)
    (Does.tryCatch (G := fun _ => True) ?_ fun e _ _ => ?_) fun _ d hadded => ?_
  · refine (does_insertRow anyFault trivial _ _).mono fun _ d ⟨hfree, hd⟩ => ?_
    refine ⟨hstaff, hself, hexists, ?_, fun g hg => ?_, hfree _ (by simp), hd⟩
    · cases targetType <;> rfl
    · have hpk : (newGrant n actor.pk staff codename targetType target).pk = n := by
        cases targetType <;> rfl
      rw [hpk]
      exact pk_free (hfree (.pk .scopeGrant n) (by simp)) hg
  · cases e <;> exact Does.raise trivial
  · refine Does.bind (does_audit _) fun _ s' hs => Does.ret ?_
    exact ⟨d, hadded, _, rfl, rfl, rfl, hs⟩

/-- `grant_scope`, when its transaction is committed. -/
theorem does_grantScopeBody (staff : Nat) (codename : String) (targetType : TargetType)
    (target : Nat) (reason : String) (version : Int) (reauthenticatedAt : Option Time) :
    Does ownDatabase (grantScopeBody actor staff codename targetType target reason version
        reauthenticatedAt) s
      (fun r s' => CommandLeaves actor.pk "grant"
        (GrantAdded actor.pk staff codename targetType target) s (.ok r) s')
      fun _ => True := by
  refine Does.look (asks_clockTimestamp anyFault) fun now _ => ?_
  refine Does.look (asks_requireReauthentication _ _) fun _ _ => ?_
  refine Does.look (asks_raiseIf fun _ => trivial) fun _ _ => ?_
  refine Does.look (asks_handled _ _ _ _ asks_notFound) fun row hrow => ?_
  have hrow' := List.find?_some hrow
  rw [Bool.and_eq_true, Bool.and_eq_true, beq_iff_eq] at hrow'
  obtain ⟨⟨hpk, hactive⟩, hstaff⟩ := hrow'
  refine Does.look (asks_raiseIf fun _ => trivial) fun _ hself => ?_
  split
  · exact does_conflict _ _
  · refine Does.look (asks_fetch anyFault _) fun found hfound => ?_
    refine Does.look (asks_raiseIf fun _ => trivial) fun _ hexists => ?_
    rw [hfound, Bool.not_eq_false'] at hexists
    rw [hpk] at hself ⊢
    exact does_createGrant ⟨row, List.mem_of_find?_eq_some hrow, hpk, hactive, hstaff⟩
      (fun h => Bool.eq_false_iff.mp hself (beq_iff_eq.mpr h)) hexists _

/-- **SPECIFICATION** of `grant_scope`, in both layers. -/
theorem performs_grantScope (staff : Nat) (codename : String) (targetType : TargetType)
    (target : Nat) (reason : String) (version : Int) (reauthenticatedAt : Option Time) :
    Performs ownDatabase (grantScope p actor staff codename targetType target reason version
        reauthenticatedAt) s
      (CommandLeaves actor.pk "grant"
        (GrantAdded actor.pk staff codename targetType target) s) := by
  refine performs_normalized (fun _ => rfl) fun normalized => performs_command ?_ fun e =>
    performs_handler _ _ _ _
  refine performs_normalized (fun _ => rfl) fun _ => ?_
  refine Performs.bind (P := fun _ s' => s' = s)
    (Performs.raiseIf (fun _ => rfl) fun _ => rfl) (fun _ s' hs => ?_) fun _ _ hs => hs
  rw [show s' = s from hs]
  exact performs_authority (does_grantScopeBody _ _ _ _ _ _ _)

/-- The grant is revoked, the epoch of its staff raised, and both audited. -/
theorem does_revokeGrant {row : AdminScopeGrant} (hin : row ∈ s.scopeGrants)
    (hself : actor.pk ≠ row.staff) (hactive : row.revokedAt = none) (reason : String)
    (now : Time) :
    Does ownDatabase (revokeGrant actor row reason now) s
      (fun r s' => CommandLeaves actor.pk "revoke" (GrantRevoked actor.pk row.pk) s (.ok r) s')
      fun _ => True := by
  refine Does.bind (does_updateRows anyFault _ _ _) fun _ s1 h1 => ?_
  refine Does.look (Asks.observe _) fun _ _ => ?_
  refine Does.bind (does_updateRows anyFault _ _ _) fun _ d hd => ?_
  refine Does.look (asks_getRow anyFault _ _ fun _ => trivial) fun stored hstored => ?_
  refine Does.bind (does_audit _) fun _ s' hs => Does.ret ?_
  have hpk := List.find?_some hstored
  rw [beq_iff_eq] at hpk
  rw [h1] at hd
  exact ⟨d, ⟨row, hin, now, rfl, hactive, hself, List.mem_of_find?_eq_some hstored, hpk, hd⟩,
    _, rfl, rfl, rfl, hs⟩

/-- `revoke_scope`, when its transaction is committed. -/
theorem does_revokeScopeBody (grant : Nat) (reason : String) (version : Int)
    (reauthenticatedAt : Option Time) :
    Does ownDatabase (revokeScopeBody actor grant reason version reauthenticatedAt) s
      (fun r s' => CommandLeaves actor.pk "revoke" (GrantRevoked actor.pk grant) s (.ok r) s')
      fun _ => True := by
  refine Does.look (asks_clockTimestamp anyFault) fun now _ => ?_
  refine Does.look (asks_requireReauthentication _ _) fun _ _ => ?_
  refine Does.look (asks_raiseIf fun _ => trivial) fun _ _ => ?_
  refine Does.look (P := fun row => s.scopeGrants.find? (·.pk == grant) = some row) ?_
    fun row hrow => ?_
  · refine Asks.tryCatch (G := fun _ => True) ?_ fun e _ =>
      (asks_notFound e).mono fun _ h => h.elim
    refine Asks.bind (asks_getForUpdate anyFault _ _ _ _ fun _ => trivial) fun row hrow => ?_
    exact Asks.bind (Asks.acquireAll anyFault [_]) fun _ _ => Asks.ret hrow
  · have hpk := List.find?_some hrow
    rw [beq_iff_eq] at hpk
    refine Does.look (asks_raiseIf fun _ => trivial) fun _ hself => ?_
    split
    · exact does_conflict _ _
    · split
      · exact Does.ret rfl
      · next hactive =>
          rw [← hpk]
          refine does_revokeGrant (List.mem_of_find?_eq_some hrow)
            (fun h => Bool.eq_false_iff.mp hself (beq_iff_eq.mpr h)) ?_ _ _
          exact Option.not_isSome_iff_eq_none.mp hactive

/-- **SPECIFICATION** of `revoke_scope`, in both layers. -/
theorem performs_revokeScope (grant : Nat) (reason : String) (version : Int)
    (reauthenticatedAt : Option Time) :
    Performs ownDatabase (revokeScope p actor grant reason version reauthenticatedAt) s
      (CommandLeaves actor.pk "revoke" (GrantRevoked actor.pk grant) s) := by
  refine performs_normalized (fun _ => rfl) fun normalized => performs_command ?_ fun e => ?_
  · exact performs_normalized (fun _ => rfl) fun _ =>
      performs_authority (does_revokeScopeBody _ _ _ _)
  · cases e with
    | managementConflict m =>
        exact performs_lookup fun _ => performs_refusal _ rfl rfl fun h => h
    | managementDenied m =>
        exact performs_lookup fun _ => performs_refusal _ rfl rfl fun h => h
    | managementNotFound m =>
        exact performs_lookup fun _ => performs_refusal _ rfl rfl fun h => h
    | _ => exact Performs.raise rfl

end Commands

/-! ## Audits that fail -/

/-- The insert of an audit row. -/
def AuditInsert (f : Store → Store) : Prop := ∃ a, f = addAdminAudit a

/-- The audit is unavailable. -/
def AuditUnavailable (e : Exn) : Prop := e = .managementUnavailable "management audit unavailable"

/-- A write that leaves the audits of the empty store is no insert of one. -/
theorem not_auditInsert {f : Store → Store} (h : (f {}).adminAudits = []) : ¬ AuditInsert f := by
  rintro ⟨a, rfl⟩
  exact nomatch h

section Failing

variable {α ρ : Type} {W : (Store → Store) → Prop} {P : Exn → Prop}

/-- A query is not the write in question, so its failure is not either. -/
theorem fatal_fetch (q : Store → α) : Fatal W P (fetch q) := Fatal.select _

theorem fatal_raise (e : Exn) : Fatal W P (raise e : M α) := trivial

theorem fatal_getForUpdate (t : Table) (rows : Store → List ρ) (pk : ρ → Nat) (p : ρ → Bool) :
    Fatal W P (getForUpdate t rows pk p) := by
  have hrows : Fatal W P (selectForUpdate t rows pk p) :=
    Fatal.bind (fatal_fetch _) fun _ => Fatal.bind (Fatal.acquireAll _) fun _ => fatal_fetch _
  refine Fatal.bind (Fatal.bind hrows fun _ => Fatal.ret _) fun r => ?_
  cases r with
  | some r => exact Fatal.ret r
  | none => exact fatal_raise _

theorem fatal_getRow (t : Table) (q : Store → Option ρ) : Fatal W P (getRow t q) := by
  refine Fatal.bind (fatal_fetch q) fun r => ?_
  cases r with
  | some r => exact Fatal.ret r
  | none => exact fatal_raise _

/-- Nor is an insert of another row. -/
theorem fatal_insertRow {keys : List Index} {f : Store → Store} (hf : ¬ W f) :
    Fatal W P (insertRow keys f) :=
  Fatal.bind (Fatal.acquireAll _) fun _ => Fatal.bind (fatal_fetch _) fun _ =>
    Fatal.bind (Fatal.raiseIf _ _) fun _ => Fatal.write hf

/-- Nor is an update. -/
theorem fatal_updateRows {t : Table} {pks : List Nat} {f : Store → Store} (hf : ¬ W f) :
    Fatal W P (updateRows t pks f) :=
  Fatal.bind (Fatal.acquireAll _) fun _ => Fatal.write hf

/-- The one place where an audit is inserted. -/
theorem fatal_audit (a : AdminAudit) : Fatal AuditInsert AuditUnavailable (audit a) := by
  refine Fatal.tryCatch (P := fun _ => True) (Fatal.atomic ?_) (fun _ _ => .raise rfl)
    fun _ => fatal_raise _
  exact Fatal.bind (Fatal.acquireAll _) fun _ => Fatal.bind (fatal_fetch _) fun _ =>
    Fatal.bind (Fatal.raiseIf _ _) fun _ => Fatal.writeAny _

/-- A handler that lets the error of an unavailable audit pass. -/
theorem fatal_handled {m : M α} {h : Exn → M α} (hm : Fatal AuditInsert AuditUnavailable m)
    (hd : h (.managementUnavailable "management audit unavailable") =
      raise (.managementUnavailable "management audit unavailable"))
    (hh : ∀ e, Fatal AuditInsert AuditUnavailable (h e)) :
    Fatal AuditInsert AuditUnavailable (m.tryCatch h) := by
  refine Fatal.tryCatch hm (fun e he => ?_) hh
  rw [show e = _ from he, hd]
  exact .raise rfl

/-- The check of times makes no write. -/
theorem fatal_requireReauthentication (reauthenticatedAt : Option Time) (now : Time) :
    Fatal W P (requireReauthentication reauthenticatedAt now) := by
  cases reauthenticatedAt with
  | none => exact fatal_raise _
  | some t => exact Fatal.raiseIf _ _

/-- The check of the scope makes none. -/
theorem fatal_requireScope (actor : Actor) (codename : String) (targetType : TargetType)
    (target : Nat) : Fatal W P (requireScope actor codename targetType target) := by
  refine Fatal.bind (Fatal.raiseIf _ _) fun _ => Fatal.bind (fatal_fetch _) fun grant => ?_
  cases grant with
  | some g => exact Fatal.ret g
  | none => exact fatal_raise _

/-- An audit that fails before a refusal fails the refusal. -/
theorem fatal_refusal (a : AdminAudit) (e : Exn) :
    Fatal AuditInsert AuditUnavailable (audit a >>= fun _ => (raise e : M α)) :=
  Fatal.bind (fatal_audit a) fun _ => fatal_raise e

variable (actor : Actor) (targetType : TargetType) (target : Nat) (reason : String)
  (version : Int) (reauthenticatedAt : Option Time)

/-- Locks make no write. -/
theorem fatal_lockSanctionTarget :
    Fatal AuditInsert AuditUnavailable (lockSanctionTarget targetType target) := by
  refine fatal_handled ?_ rfl fun e => by cases e <;> exact fatal_raise _
  cases targetType with
  | user => exact Fatal.bind (fatal_getForUpdate _ _ _ _) fun _ => Fatal.ret _
  | product | review => exact Fatal.bind (fatal_getForUpdate _ _ _ _) fun _ => Fatal.ret _

/-- An audit that fails in the transaction fails it. -/
theorem fatal_applySanctionBody : Fatal AuditInsert AuditUnavailable
    (applySanctionBody actor targetType target reason version reauthenticatedAt) := by
  refine Fatal.bind (Fatal.select _) fun now => ?_
  refine Fatal.bind (fatal_requireReauthentication _ _) fun _ => ?_
  refine Fatal.bind (fatal_lockSanctionTarget _ _) fun current => ?_
  refine Fatal.bind (fatal_requireScope _ _ _ _) fun _ => ?_
  dsimp only
  split
  · exact fatal_refusal _ _
  · refine Fatal.bind (fatal_fetch _) fun active => ?_
    cases active with
    | some action => exact Fatal.ret _
    | none =>
        refine Fatal.bind (Fatal.observe _) fun _ => Fatal.bind (Fatal.bind Fatal.fresh fun n => ?_)
          fun _ => Fatal.bind (fatal_audit _) fun _ => Fatal.ret _
        exact Fatal.bind (fatal_insertRow (not_auditInsert rfl)) fun _ => Fatal.ret _

/-- Likewise for a release, -/
theorem fatal_releaseSanctionBody (sanction : Nat) : Fatal AuditInsert AuditUnavailable
    (releaseSanctionBody actor sanction reason version reauthenticatedAt) := by
  refine Fatal.bind (Fatal.select _) fun now => ?_
  refine Fatal.bind (fatal_requireReauthentication _ _) fun _ => ?_
  refine Fatal.bind (fatal_handled (fatal_getForUpdate _ _ _ _) rfl
    fun e => by cases e <;> exact fatal_raise _) fun action => ?_
  refine Fatal.bind (fatal_requireScope _ _ _ _) fun _ => ?_
  dsimp only
  split
  · exact fatal_refusal _ _
  · refine Fatal.bind (fatal_fetch _) fun existing => ?_
    cases existing with
    | some release => exact Fatal.ret _
    | none =>
        dsimp only
        split
        · exact fatal_refusal _ _
        · exact Fatal.bind (fatal_insertRow (not_auditInsert rfl)) fun _ =>
            Fatal.bind (fatal_audit _) fun _ => Fatal.ret _

/-- for a grant, -/
theorem fatal_grantScopeBody (staff : Nat) (codename : String) :
    Fatal AuditInsert AuditUnavailable (grantScopeBody actor staff codename targetType target
      reason version reauthenticatedAt) := by
  refine Fatal.bind (Fatal.select _) fun now => ?_
  refine Fatal.bind (fatal_requireReauthentication _ _) fun _ => ?_
  refine Fatal.bind (Fatal.raiseIf _ _) fun _ => ?_
  refine Fatal.bind (fatal_handled (fatal_getForUpdate _ _ _ _) rfl
    fun e => by cases e <;> exact fatal_raise _) fun row => ?_
  refine Fatal.bind (Fatal.raiseIf _ _) fun _ => ?_
  split
  · exact fatal_refusal _ _
  · refine Fatal.bind (fatal_fetch _) fun _ => Fatal.bind (Fatal.raiseIf _ _) fun _ => ?_
    refine Fatal.bind Fatal.fresh fun n => Fatal.bind (fatal_handled
      (fatal_insertRow (not_auditInsert rfl)) rfl fun e => by cases e <;> exact fatal_raise _)
      fun _ => Fatal.bind (fatal_audit _) fun _ => Fatal.ret _

/-- and for a revocation. -/
theorem fatal_revokeScopeBody (grant : Nat) : Fatal AuditInsert AuditUnavailable
    (revokeScopeBody actor grant reason version reauthenticatedAt) := by
  refine Fatal.bind (Fatal.select _) fun now => ?_
  refine Fatal.bind (fatal_requireReauthentication _ _) fun _ => ?_
  refine Fatal.bind (Fatal.raiseIf _ _) fun _ => ?_
  refine Fatal.bind (fatal_handled (Fatal.bind (fatal_getForUpdate _ _ _ _) fun row =>
    Fatal.bind (Fatal.acquire _) fun _ => Fatal.ret row) rfl
    fun e => by cases e <;> exact fatal_raise _) fun row => ?_
  refine Fatal.bind (Fatal.raiseIf _ _) fun _ => ?_
  split
  · exact fatal_refusal _ _
  · split
    · exact Fatal.ret _
    · refine Fatal.bind (fatal_updateRows (not_auditInsert rfl)) fun _ => ?_
      refine Fatal.bind (Fatal.observe _) fun _ => ?_
      refine Fatal.bind (fatal_updateRows (not_auditInsert rfl)) fun _ => ?_
      exact Fatal.bind (fatal_getRow _ _) fun _ => Fatal.bind (fatal_audit _) fun _ => Fatal.ret _

end Failing

/-- The public function around an authority. -/
theorem fatal_public {α : Type} {p : Platform} {reason : String} {f : String → M α}
    {h : String → Exn → M α} (hf : ∀ normalized, Fatal AuditInsert AuditUnavailable (f normalized))
    (hd : ∀ normalized, h normalized (.managementUnavailable "management audit unavailable") =
      raise (.managementUnavailable "management audit unavailable"))
    (hh : ∀ normalized e, Fatal AuditInsert AuditUnavailable (h normalized e)) :
    Fatal AuditInsert AuditUnavailable (Prog.ofAnswer (normalizeManagementReason p reason) >>=
      fun normalized => (f normalized).tryCatch (h normalized)) :=
  Fatal.bind (Fatal.ofAnswer _) fun n => fatal_handled (hf n) (hd n) (hh n)

section Public

variable (p : Platform) (actor : Actor) (targetType : TargetType) (target : Nat)
  (reason : String) (version : Int) (reauthenticatedAt : Option Time)

/-- An audit that fails in either layer fails the command. -/
theorem fatal_applySanction : Fatal AuditInsert AuditUnavailable
    (applySanction p actor targetType target reason version reauthenticatedAt) := by
  refine fatal_public (fun n => Fatal.bind (Fatal.ofAnswer _) fun _ =>
    Fatal.bind (Fatal.raiseIf _ _) fun _ => Fatal.atomic (fatal_applySanctionBody _ _ _ _ _ _))
    (fun _ => rfl) fun n e => ?_
  cases e with
  | managementConflict | managementDenied | managementNotFound => exact fatal_refusal _ _
  | _ => exact fatal_raise _

/-- Likewise for a release, -/
theorem fatal_releaseSanction (sanction : Nat) : Fatal AuditInsert AuditUnavailable
    (releaseSanction p actor sanction reason version reauthenticatedAt) := by
  refine fatal_public (fun n => Fatal.bind (Fatal.ofAnswer _) fun _ =>
    Fatal.atomic (fatal_releaseSanctionBody _ _ _ _ _)) (fun _ => rfl) fun n e => ?_
  cases e with
  | managementConflict | managementDenied | managementNotFound =>
      exact Fatal.bind (Fatal.bind (fatal_fetch _) fun _ => Fatal.ret _) fun _ =>
        fatal_refusal _ _
  | _ => exact fatal_raise _

/-- for a grant, -/
theorem fatal_grantScope (staff : Nat) (codename : String) :
    Fatal AuditInsert AuditUnavailable
      (grantScope p actor staff codename targetType target reason version reauthenticatedAt) := by
  refine fatal_public (fun n => Fatal.bind (Fatal.ofAnswer _) fun _ =>
    Fatal.bind (Fatal.raiseIf _ _) fun _ => Fatal.atomic (fatal_grantScopeBody _ _ _ _ _ _ _ _))
    (fun _ => rfl) fun n e => ?_
  cases e with
  | managementConflict | managementDenied | managementNotFound => exact fatal_refusal _ _
  | _ => exact fatal_raise _

/-- and for a revocation. -/
theorem fatal_revokeScope (grant : Nat) : Fatal AuditInsert AuditUnavailable
    (revokeScope p actor grant reason version reauthenticatedAt) := by
  refine fatal_public (fun n => Fatal.bind (Fatal.ofAnswer _) fun _ =>
    Fatal.atomic (fatal_revokeScopeBody _ _ _ _ _)) (fun _ => rfl) fun n e => ?_
  cases e with
  | managementConflict | managementDenied | managementNotFound =>
      exact Fatal.bind (Fatal.bind (fatal_fetch _) fun _ => Fatal.ret _) fun _ =>
        fatal_refusal _ _
  | _ => exact fatal_raise _

end Public

/-! ## Commands and their audits -/

/-- A call of the command `m` on `s`, in every run of it and whichever statements fail,
    ends with what `CommandLeaves` says; and when an audit is not inserted, it raises that
    the audit is unavailable and leaves the store exactly as it was. -/
structure AuditedCommand {α : Type} (actor : Nat) (action : String)
    (change : α → Store → Store → Prop) (s : Store) (m : M (ManagementResult α)) : Prop where
  leaves : ∀ now (c : Config (Fin 1) Store Lock Exn Obs (ManagementResult α)) r,
    Reached s now (fun _ => m) c → c.prog 0 = Prog.ofAnswer r →
    CommandLeaves actor action change s r c.db
  unavailable : ∀ now (a b : Config (Fin 1) Store Lock Exn Obs (ManagementResult α)),
    Reached s now (fun _ => m) a → WriteFails ownDatabase AuditInsert 0 a b →
    (∃ c, Reaches ownDatabase b c ∧ ∃ e, c.prog 0 = .raise e) ∧
    ∀ c, Reaches ownDatabase b c → (∀ r, c.prog 0 ≠ .ret r) ∧
      ∀ e, c.prog 0 = .raise e → AuditUnavailable e ∧ c.db = s

theorem auditedCommand {α : Type} {actor : Nat} {action : String}
    {change : α → Store → Store → Prop} {s : Store} {m : M (ManagementResult α)}
    (hm : Performs ownDatabase m s (CommandLeaves actor action change s))
    (hfatal : Fatal AuditInsert AuditUnavailable m) :
    AuditedCommand actor action change s m := by
  have run : ∀ {now c}, Reached s now (fun _ : Fin 1 => m) c → _ := fun hr =>
    hm.run Lock.conflicts_symm (fun _ _ h => False.elim h) hr
  constructor
  · intro now c r hr hend
    cases r with
    | ok a => exact (run hr).1 a hend
    | error e => exact (run hr).2 e hend
  · intro now a b hr hfail
    refine ⟨?_, fun c hr' => ?_⟩
    · obtain ⟨c, hr', e, he, -⟩ := doomed_ends (fatal_doomed (i := 0) hfatal hr hfail)
      exact ⟨c, hr', e, he⟩
    · obtain ⟨hret, hraise⟩ := fatal_run (i := 0) hfatal hr hfail hr'
      refine ⟨hret, fun e he => ?_⟩
      have hunavailable := hraise e he
      have hleaves := (run ((Reaches.step hr hfail.step).trans hr')).2 e he
      rw [show e = _ from hunavailable] at hleaves
      exact ⟨hunavailable, hleaves⟩

/-- **COMMANDS AND AUDITS**: on every store, each of the four commands makes its one change
    with one audit of success, or none; a conflict, a denial or a missing target adds exactly
    one audit of the refusal; and any other error leaves the store as it was. -/
theorem commands_audited (p : Platform) (actor : Actor) (s : Store) (reason : String)
    (version : Int) (reauthenticatedAt : Option Time) :
    (∀ targetType target, AuditedCommand actor.pk "apply" (SanctionAdded targetType target) s
      (applySanction p actor targetType target reason version reauthenticatedAt)) ∧
    (∀ sanction, AuditedCommand actor.pk "release" (ReleaseAdded actor.pk sanction) s
      (releaseSanction p actor sanction reason version reauthenticatedAt)) ∧
    (∀ staff codename targetType target, AuditedCommand actor.pk "grant"
      (GrantAdded actor.pk staff codename targetType target) s
      (grantScope p actor staff codename targetType target reason version
        reauthenticatedAt)) ∧
    ∀ grant, AuditedCommand actor.pk "revoke" (GrantRevoked actor.pk grant) s
      (revokeScope p actor grant reason version reauthenticatedAt) :=
  ⟨fun _ _ => auditedCommand (performs_applySanction _ _ _ _ _) (fatal_applySanction _ _ _ _ _ _ _),
    fun _ => auditedCommand (performs_releaseSanction _ _ _ _) (fatal_releaseSanction _ _ _ _ _ _),
    fun _ _ _ _ => auditedCommand (performs_grantScope _ _ _ _ _ _ _)
      (fatal_grantScope _ _ _ _ _ _ _ _ _),
    fun _ => auditedCommand (performs_revokeScope _ _ _ _) (fatal_revokeScope _ _ _ _ _ _)⟩

/-- A member of staff with the permission and the scope to sanction a user. -/
def sanctioningStaff : Actor where
  pk := 1
  isActive := true
  isStaff := true
  isSuperuser := false
  hasPerm := fun codename => codename == "apply_sanction"
  metaPermission := false

def scopedStaff : Store where
  users := [{ pk := 1, username := "stale_staff", isStaff := true },
    { pk := 2, username := "stale_target" }]
  scopeGrants := [{ pk := 3, staff := 1, codename := "apply_sanction", targetUser := some 2,
                    grantedBy := 2 }]

/-- The error that a session ended with. -/
def raised {α : Type} (m : M α) : Option Exn :=
  match m with
  | .raise e => some e
  | _ => none

/-- A program that only raises is its error. -/
theorem raised_eq {α : Type} {m : M α} {e : Exn} (h : raised m = some e) :
    m = Prog.ofAnswer (.error e) := by
  cases m with
  | raise x => cases h; rfl
  | _ => exact nomatch h

/-- A request from a page that is out of date adds one audit of the conflict. -/
theorem stale_sanction_audited :
    ∃ c : Config (Fin 1) Store Lock Exn Obs (ManagementResult ModerationAction),
      Reached scopedStaff 1000 (fun _ => applySanction plainPlatform sanctioningStaff .user 2
        "a request that is out of date" 1 (some 1000)) c ∧
      AuditOf 1 "apply" "CONFLICT" scopedStaff c.db := by
  have hplay : (TxnSchedule.play validateBalancedJournal [.run 0 100 (fun n => 20 + n)]
      (Config.start (V := Obs) scopedStaff 1000 fun _ : Fin 1 =>
        applySanction plainPlatform sanctioningStaff .user 2 "a request that is out of date" 1
          (some 1000))).map (fun c => raised (c.prog 0)) =
      some (some (.managementConflict "stale management request")) := by decide +kernel
  obtain ⟨c, hr, hc⟩ := TxnSchedule.reaches_of_play (D := postgres fun _ _ => False)
    (f := fun c => _) hplay
  exact ⟨c, hr, ((commands_audited plainPlatform sanctioningStaff scopedStaff
    "a request that is out of date" 1 (some 1000)).1 .user 2).leaves 1000 c _ hr (raised_eq hc)⟩

end Market
