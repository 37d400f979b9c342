import Mathlib.Data.List.Basic
import Marketplace.Accounts
import Marketplace.LedgerWrites
import Marketplace.Management

/-! # The writes of the other services, and the locks they are made under

    Every write of `moderation`, `accounts`, `catalog` and `trades` is of a kind; the
    catalogue says which locks the services hold when they make it.  All of them
    respect the locks of others, and what a kind of write leaves alone is said once
    for the kind. -/

namespace Market

open TxnProgram TxnInterleaving TxnLogic TxnProtection

/-- The kinds of writes. -/
inductive WriteKind where
  | products | favorites | notifications | newMetric | metric | closing | transferAudit
  | withdrawal | task | report | consumed | action | auditEvent | bump | adminAudit
  | release | grant | sessions | newSession | trade | tradeHistory | profile
  deriving DecidableEq

/-- The action is inserted under the lock of its target. -/
def TargetLocked (held : List Lock) (a : ModerationAction) : Prop :=
  (∀ n, a.targetUser = some n → .row .user n ∈ held) ∧
    ∀ n, a.targetProduct = some n → .row .product n ∈ held

/-- The parties of the trade are locked. -/
def PartiesLocked (held : List Lock) (t : Trade) : Prop :=
  ∀ n, t.HasParty n → .row .user n ∈ held

/-- The writes of each kind, under the locks that the services take for them. -/
inductive Licensed (held : List Lock) : WriteKind → (Store → Store) → Prop where
  | products (pks : List Nat) (f : Product → Product) :
      (∀ n ∈ pks, .row .product n ∈ held) → (∀ r, (f r).identity = r.identity) →
      Licensed held .products (updateProducts pks f)
  | favorites (pks : List Nat) : Licensed held .favorites (removeFavorites pks)
  | notifications (pks : List Nat) : Licensed held .notifications (removeNotifications pks)
  | newMetric (m : ProductMetric) : .unique (.productMetric m.product) ∈ held →
      Licensed held .newMetric (addMetric m)
  | metric (m : ProductMetric) : Licensed held .metric (setMetric m)
  | closing (n : Nat) (now : Time) : .row .mockAccount n ∈ held →
      Licensed held .closing (setClosed n now)
  | transferAudit (a : TransferAudit) : Licensed held .transferAudit (addTransferAudit a)
  | withdrawal (u : User) (now : Time) : .row .user u.pk ∈ held →
      Licensed held .withdrawal (setWithdrawn u now)
  | task (t : RevocationTask) : .unique (.pk .revocationTask t.pk) ∈ held →
      .unique (.revocationUserEpoch t.user t.authEpoch) ∈ held →
      .unique (.revocationEventKey t.eventKey) ∈ held → .row .user t.user ∈ held →
      Licensed held .task (addRevocationTask t)
  | report (r : AbuseReport) : .unique (.pk .report r.pk) ∈ held →
      (∀ n, r.targetUser = some n → .unique (.reporterUser r.reporter n) ∈ held) →
      (∀ n, r.targetProduct = some n → .unique (.reporterProduct r.reporter n) ∈ held) →
      Licensed held .report (addReport r)
  | consumed (pks : List Nat) (action : Nat) :
      Licensed held .consumed (consumeReports pks action)
  | action (a : ModerationAction) : .unique (.pk .action a.pk) ∈ held →
      TargetLocked held a → Licensed held .action (addAction a)
  | auditEvent (e : AuditEvent) :
      (∀ n, e.action = some n → .unique (.auditAction n) ∈ held) →
      Licensed held .auditEvent (addAuditEvent e)
  | bump (n : Nat) : .row .user n ∈ held → Licensed held .bump (bumpAuthEpoch n)
  | adminAudit (a : AdminAudit) : Licensed held .adminAudit (addAdminAudit a)
  | release (r : SanctionRelease) : .unique (.releaseAction r.action) ∈ held →
      .row .action r.action ∈ held → Licensed held .release (addRelease r)
  | grant (n : Nat) (f : AdminScopeGrant → AdminScopeGrant) : .row .scopeGrant n ∈ held →
      (∀ g, (f g).identity = g.identity ∧ (f g).revokedAt.isSome = true) →
      Licensed held .grant (updateGrant n f)
  | sessions (pks : List Nat) (f : UserSessionIndex → UserSessionIndex) :
      (∀ r, (f r).pk = r.pk ∧ (f r).sessionKey = r.sessionKey) →
      Licensed held .sessions (updateSessions pks f)
  | newSession (r : UserSessionIndex) : .unique (.pk .sessionIndex r.pk) ∈ held →
      .unique (.sessionKey r.sessionKey) ∈ held → Licensed held .newSession (addSession r)
  | trade (t : Trade) : .unique (.pk .trade t.pk) ∈ held →
      .unique (.nonCancelledTrade t.product) ∈ held → PartiesLocked held t →
      Licensed held .trade (addTrade t)
  | tradeHistory (h : TradeStatusHistory) : .unique (.tradeVersion h.trade h.version) ∈ held →
      Licensed held .tradeHistory (addTradeHistory h)
  | profile (u : User) : .row .user u.pk ∈ held →
      Licensed held .profile (updateUser u.pk fun _ => u)

/-! ## They respect the locks of others -/

section Respect

variable {p : Platform} {held : List Lock} {s : Store}

/-- A write to a table of which no lock protects anything but index entries. -/
theorem Respects.of_unguarded {s' : Store} (t : Table) (hrow : ∀ t' : Table, t ∉ t'.guarded)
    (hadvisory : t ∉ [Table.safety, Table.request])
    (hother : ∀ t', t' ≠ t → t'.agrees s s') (hkeep : Keeps s s')
    (hindex : ∀ i : Index, i.table = t → Open held (.unique i) →
      i.present s = false → i.present s' = false) : Respects p held s s' :=
  Respects.of_table t hother hkeep (fun t' _ ht _ => absurd ht (hrow t'))
    (fun _ _ ht => absurd ht hadvisory) hindex

/-- Rows rewritten one by one keep a condition that reads what is not rewritten. -/
theorem any_map_congr {ρ : Type} {rows : List ρ} {f : ρ → ρ} {q : ρ → Bool}
    (hf : ∀ r, q (f r) = q r) : (rows.map f).any q = rows.any q := by
  rw [List.any_map]
  exact congrArg (List.any rows) (funext hf)

/-- What no row is, no row of a part is. -/
theorem any_filter_false {ρ : Type} {rows : List ρ} {p q : ρ → Bool}
    (h : rows.any q = false) : (rows.filter p).any q = false := by
  rw [List.any_eq_false] at h ⊢
  exact fun r hr => h r (List.mem_filter.mp hr).1

/-- A row that is not among the rewritten ones stays. -/
theorem rowStays_map {ρ : Type} {pk : ρ → Nat} {n : Nat} {rows : List ρ} {f : ρ → ρ}
    (h : ∀ r, pk r = n → f r = r) : RowStays pk n rows (rows.map f) :=
  fun r hr hn => List.mem_map.mpr ⟨r, hr, h r hn⟩

/-- A row stays when another one is appended. -/
theorem rowStays_append {ρ : Type} {pk : ρ → Nat} {n : Nat} {rows : List ρ} (r : ρ) :
    RowStays pk n rows (rows ++ [r]) := fun _ h _ => List.mem_append_left _ h

/-- What a rewrite leaves alone in each row it leaves alone in the list. -/
theorem map_identity {ρ κ : Type} {rows : List ρ} {f : ρ → ρ} {key : ρ → κ}
    (hf : ∀ r, key (f r) = key r) : (rows.map f).map key = rows.map key := by
  rw [List.map_map]
  exact List.map_congr_left fun r _ => hf r

/-- Rows with one and the same key, which is unique, are at most one. -/
theorem length_le_one_of_key {ρ κ : Type} {rows : List ρ} {key : ρ → κ} {k : κ}
    (hkeys : (rows.map key).Nodup) (h : ∀ r ∈ rows, key r = k) : rows.length ≤ 1 := by
  have hall : rows.map key = List.replicate rows.length k := by
    rw [List.eq_replicate_iff, List.length_map]
    refine ⟨rfl, fun x hx => ?_⟩
    obtain ⟨r, hr, rfl⟩ := List.mem_map.mp hx
    exact h r hr
  rw [hall, List.nodup_replicate] at hkeys
  exact hkeys

/-- A user keeps the key. -/
theorem updateUser_identity {n : Nat} {f : User → User} (hf : ∀ u, u.pk = n → (f u).pk = u.pk)
    (u : User) : (if u.pk = n then f u else u).pk = u.pk := by
  by_cases h : u.pk = n
  · rw [if_pos h, hf u h]
  · rw [if_neg h]

/-- A change of a locked user row that keeps its key. -/
theorem respects_updateUser {n : Nat} {f : User → User}
    (hf : ∀ u, u.pk = n → (f u).pk = u.pk) (hrow : .row .user n ∈ held) :
    Respects p held s (updateUser n f s) := by
  refine Respects.of_table .user ?_ ?_ ?_ ?_ ?_
  · intro t ht
    cases t <;> first | rfl | exact absurd rfl ht
  · refine { Keeps.refl s with users := ?_ }
    show _ <+: (s.users.map fun u => if u.pk = n then f u else u).map User.pk
    rw [map_identity (updateUser_identity hf)]
    exact List.prefix_rfl
  · intro t m ht ho
    cases t with
    | user =>
        refine ⟨rowStays_map fun u hu => if_neg ?_, rfl, { OwnedSame.refl m s with }⟩
        rintro rfl
        rw [← hu] at ho
        exact not_open_row hrow ho
    | _ => exact absurd ht (by decide)
  · exact fun _ _ ht => absurd ht (by decide)
  · intro i hi _ h
    cases i with
    | pk t m =>
        cases hi
        refine Eq.trans (any_map_congr fun u => ?_) h
        rw [updateUser_identity hf u]
    | _ => exact nomatch hi

/-- A product keeps its key and its owner. -/
theorem updateProducts_identity {pks : List Nat} {f : Product → Product}
    (hf : ∀ r, (f r).identity = r.identity) (r : Product) :
    (if pks.contains r.pk then f r else r).identity = r.identity := by
  split
  · exact hf r
  · rfl

/-- A change of locked products that keeps key and owner. -/
theorem respects_updateProducts {pks : List Nat} {f : Product → Product}
    (hrow : ∀ n ∈ pks, .row .product n ∈ held) (hf : ∀ r, (f r).identity = r.identity) :
    Respects p held s (updateProducts pks f s) := by
  refine Respects.of_table .product ?_ ?_ ?_ ?_ ?_
  · intro t ht
    cases t <;> first | rfl | exact absurd rfl ht
  · refine { Keeps.refl s with products := ?_ }
    show _ <+: (s.products.map fun r => if pks.contains r.pk then f r else r).map _
    rw [map_identity (updateProducts_identity hf)]
  · intro t m ht ho
    cases t with
    | product =>
        refine ⟨rowStays_map fun r hr => if_neg ?_, rfl⟩
        rw [List.contains_iff_mem, hr]
        exact fun hm => not_open_row (hrow m hm) ho
    | user =>
        refine ⟨RowStays.refl _ _ _, rfl, { OwnedSame.refl m s with products := ?_ }⟩
        intro r hr _
        rw [← map_identity (updateProducts_identity hf)]
        exact List.mem_map_of_mem hr
    | _ => exact absurd ht (by decide)
  · exact fun _ _ ht => absurd ht (by decide)
  · intro i hi _ h
    cases i with
    | pk t m =>
        cases hi
        refine Eq.trans (any_map_congr fun r => ?_) h
        have hid : (if pks.contains r.pk then f r else r).identity = r.identity :=
          updateProducts_identity hf r
        exact congrArg (· == m) (congrArg Prod.fst hid)
    | _ => exact nomatch hi

/-- A sanction, under the lock of its target. -/
theorem respects_addAction {a : ModerationAction} (hpk : .unique (.pk .action a.pk) ∈ held)
    (hlock : TargetLocked held a) : Respects p held s (addAction a s) := by
  refine Respects.of_table .action ?_ ?_ ?_ ?_ ?_
  · intro t ht
    cases t <;> first | rfl | exact absurd rfl ht
  · exact { Keeps.refl s with actions := List.prefix_append _ _ }
  · -- the sanctions of a target are protected by the lock of the target
    intro t n ht ho
    cases t with
    | user =>
        refine ⟨RowStays.refl _ _ _, ?_, { OwnedSame.refl n s with }⟩
        have hne : ¬ (a.targetUser == some n) = true := fun hc =>
          not_open_row (hlock.1 n (eq_of_beq hc)) ho
        show (s.actions ++ [a]).filter _ = _
        rw [List.filter_append, List.filter_cons, if_neg hne, List.filter_nil,
          List.append_nil]
    | product =>
        refine ⟨RowStays.refl _ _ _, ?_⟩
        have hne : ¬ (a.targetProduct == some n) = true := fun hc =>
          not_open_row (hlock.2 n (eq_of_beq hc)) ho
        show (s.actions ++ [a]).filter _ = _
        rw [List.filter_append, List.filter_cons, if_neg hne, List.filter_nil,
          List.append_nil]
    | _ => exact absurd ht (by decide)
  · exact fun _ _ ht => absurd ht (by decide)
  · intro i hi ho h
    cases i with
    | pk t n =>
        cases hi
        exact index_of_append ho (fun hq => by rw [← eq_of_beq hq]; exact hpk) h
    | _ => exact nomatch hi

/-- A release, under the lock of its action, which has one only. -/
theorem respects_addRelease {r : SanctionRelease}
    (hkey : .unique (.releaseAction r.action) ∈ held)
    (hlock : .row .action r.action ∈ held) : Respects p held s (addRelease r s) := by
  refine Respects.of_table .release ?_ ?_ ?_ ?_ ?_
  · intro t ht
    cases t <;> first | rfl | exact absurd rfl ht
  · exact { Keeps.refl s with releases := List.prefix_append _ _ }
  · intro t n ht ho
    cases t with
    | action =>
        have hne : ¬ (r.action == n) = true := by
          intro hc
          rw [← eq_of_beq hc] at ho
          exact not_open_row hlock ho
        show (s.releases ++ [r]).filter _ = _
        rw [List.filter_append, List.filter_cons, if_neg hne, List.filter_nil,
          List.append_nil]
    | _ => exact absurd ht (by decide)
  · exact fun _ _ ht => absurd ht (by decide)
  · intro i hi ho h
    cases i with
    | pk t n =>
        cases hi
        exact h
    | releaseAction a =>
        exact index_of_append ho (fun hq => by rw [← eq_of_beq hq]; exact hkey) h
    | _ => exact nomatch hi

/-- A report takes the key of its reporter and target. -/
theorem respects_addReport {r : AbuseReport} (hpk : .unique (.pk .report r.pk) ∈ held)
    (huser : ∀ n, r.targetUser = some n → .unique (.reporterUser r.reporter n) ∈ held)
    (hproduct : ∀ n, r.targetProduct = some n →
      .unique (.reporterProduct r.reporter n) ∈ held) :
    Respects p held s (addReport r s) := by
  refine Respects.of_unguarded .report (fun t' => by cases t' <;> decide) (by decide) ?_
    { Keeps.refl s with
      reports := by
        show _ <+: (s.reports ++ [r]).map AbuseReport.identity
        rw [List.map_append]
        exact List.prefix_append _ _ } ?_
  · intro t ht
    cases t <;> first | rfl | exact absurd rfl ht
  · intro i hi ho h
    cases i with
    | pk t n =>
        cases hi
        exact index_of_append ho (fun hq => by rw [← eq_of_beq hq]; exact hpk) h
    | reporterUser u n =>
        refine index_of_append ho (fun hq => ?_) h
        rw [Bool.and_eq_true, beq_iff_eq, beq_iff_eq] at hq
        rw [← hq.1]
        exact huser n hq.2
    | reporterProduct u n =>
        refine index_of_append ho (fun hq => ?_) h
        rw [Bool.and_eq_true, beq_iff_eq, beq_iff_eq] at hq
        rw [← hq.1]
        exact hproduct n hq.2
    | _ => exact nomatch hi

/-- Reports are consumed without a lock: their identity is all that is kept. -/
theorem respects_consumeReports {pks : List Nat} {action : Nat} :
    Respects p held s (consumeReports pks action s) := by
  have same : ∀ {q : AbuseReport → Bool}, (∀ r n, q { r with consumedBy := n } = q r) →
      (consumeReports pks action s).reports.any q = s.reports.any q := by
    intro q hq
    refine any_map_congr fun r => ?_
    split
    · exact hq r _
    · rfl
  refine Respects.of_unguarded .report (fun t' => by cases t' <;> decide) (by decide) ?_
    { Keeps.refl s with
      reports := by
        show _ <+: (s.reports.map fun r =>
          if pks.contains r.pk then { r with consumedBy := some action } else r).map
            AbuseReport.identity
        have hsame : ∀ r : AbuseReport, (if pks.contains r.pk then
            { r with consumedBy := some action } else r).identity = r.identity := fun r => by
          split <;> rfl
        rw [map_identity hsame] } ?_
  · intro t ht
    cases t <;> first | rfl | exact absurd rfl ht
  · intro i hi _ h
    cases i with
    | pk t n =>
        cases hi
        exact (same fun _ _ => rfl).trans h
    | reporterUser u n => exact (same fun _ _ => rfl).trans h
    | reporterProduct u n => exact (same fun _ _ => rfl).trans h
    | _ => exact nomatch hi

/-- An event takes the key of its action. -/
theorem respects_addAuditEvent {e : AuditEvent}
    (hkey : ∀ n, e.action = some n → .unique (.auditAction n) ∈ held) :
    Respects p held s (addAuditEvent e s) := by
  refine Respects.of_unguarded .auditEvent (fun t' => by cases t' <;> decide) (by decide) ?_
    { Keeps.refl s with } ?_
  · intro t ht
    cases t <;> first | rfl | exact absurd rfl ht
  · intro i hi ho h
    cases i with
    | pk t n =>
        cases hi
        exact h
    | auditAction n => exact index_of_append ho (fun hq => hkey n (eq_of_beq hq)) h
    | _ => exact nomatch hi

/-- A change of a locked grant that revokes it. -/
theorem respects_updateGrant {n : Nat} {f : AdminScopeGrant → AdminScopeGrant}
    (hrow : .row .scopeGrant n ∈ held)
    (hf : ∀ g, (f g).identity = g.identity ∧ (f g).revokedAt.isSome = true) :
    Respects p held s (updateGrant n f s) := by
  -- a revoked grant is out of the partial indexes, another one is as it was
  have fewer : ∀ {q : AdminScopeGrant → Bool},
      s.scopeGrants.any (fun g => q g && g.revokedAt.isNone) = false →
      (updateGrant n f s).scopeGrants.any (fun g => q g && g.revokedAt.isNone) = false := by
    intro q hq
    rw [List.any_eq_false] at hq ⊢
    intro g hg
    obtain ⟨x, hx, rfl⟩ := List.mem_map.mp hg
    by_cases hpk : x.pk = n
    · rw [if_pos hpk, Bool.and_eq_true, not_and]
      intro _ hnone
      rw [Option.isNone_iff_eq_none] at hnone
      have hsome := (hf x).2
      rw [hnone] at hsome
      exact nomatch hsome
    · rw [if_neg hpk]
      exact hq x hx
  refine Respects.of_table .scopeGrant ?_ { Keeps.refl s with scopeGrants := ?_ } ?_ ?_ ?_
  · intro t ht
    cases t <;> first | rfl | exact absurd rfl ht
  · show _ <+: (s.scopeGrants.map fun g => if g.pk = n then f g else g).map
      AdminScopeGrant.identity
    have hsame : ∀ g, (if g.pk = n then f g else g).identity = g.identity := fun g => by
      by_cases hpk : g.pk = n
      · rw [if_pos hpk, (hf g).1]
      · rw [if_neg hpk]
    rw [map_identity hsame]
  · intro t m ht ho
    cases t with
    | scopeGrant =>
        refine rowStays_map fun g hg => if_neg ?_
        rintro rfl
        rw [← hg] at ho
        exact not_open_row hrow ho
    | _ => exact absurd ht (by decide)
  · exact fun _ _ ht => absurd ht (by decide)
  · intro i hi _ h
    cases i with
    | pk t m =>
        cases hi
        refine Eq.trans (any_map_congr fun g => ?_) h
        by_cases hpk : g.pk = n
        · rw [if_pos hpk]
          exact congrArg (· == m) (congrArg Prod.fst (hf g).1)
        · rw [if_neg hpk]
    | scopeUser u c m => exact fewer h
    | scopeProduct u c m => exact fewer h
    | scopeReview u c m => exact fewer h
    | _ => exact nomatch hi

/-- A trade takes the key of its product, with the parties locked. -/
theorem respects_addTrade {t : Trade} (hpk : .unique (.pk .trade t.pk) ∈ held)
    (hkey : .unique (.nonCancelledTrade t.product) ∈ held)
    (hlock : PartiesLocked held t) : Respects p held s (addTrade t s) := by
  refine Respects.of_table .trade ?_ { Keeps.refl s with trades := ?_ } ?_ ?_ ?_
  · intro t' ht
    cases t' <;> first | rfl | exact absurd rfl ht
  · exact (List.prefix_append _ _).map _
  · intro t' n ht ho
    cases t' with
    | user =>
        refine ⟨RowStays.refl _ _ _, rfl, { OwnedSame.refl n s with reserved := ?_ }⟩
        intro x hx hparty hres
        rcases List.mem_append.mp hx with hx | hx
        · exact ⟨x, hx, rfl, hparty, hres⟩
        · rw [List.mem_singleton] at hx
          rw [hx] at hparty
          exact absurd ho (not_open_row (hlock n hparty))
    | trade => exact rowStays_append t
    | _ => exact absurd ht (by decide)
  · exact fun _ _ ht => absurd ht (by decide)
  · intro i hi ho h
    cases i with
    | pk t' n =>
        cases hi
        exact index_of_append ho (fun hq => by rw [← eq_of_beq hq]; exact hpk) h
    | nonCancelledTrade n =>
        refine index_of_append ho (fun hq => ?_) h
        rw [Bool.and_eq_true, beq_iff_eq] at hq
        rw [← hq.1]
        exact hkey
    | _ => exact nomatch hi

/-- A row of the history takes the key of its version. -/
theorem respects_addTradeHistory {r : TradeStatusHistory}
    (hkey : .unique (.tradeVersion r.trade r.version) ∈ held) :
    Respects p held s (addTradeHistory r s) := by
  refine Respects.of_unguarded .tradeHistory (fun t' => by cases t' <;> decide) (by decide)
    ?_ { Keeps.refl s with tradeHistory := List.prefix_append _ _ } ?_
  · intro t ht
    cases t <;> first | rfl | exact absurd rfl ht
  · intro i hi ho h
    cases i with
    | pk t n =>
        cases hi
        exact h
    | tradeVersion t n =>
        refine index_of_append ho (fun hq => ?_) h
        rw [Bool.and_eq_true, beq_iff_eq, beq_iff_eq] at hq
        rw [← hq.1, ← hq.2]
        exact hkey
    | _ => exact nomatch hi

/-- A task takes the keys of its epoch and event, with the user locked. -/
theorem respects_addRevocationTask {t : RevocationTask}
    (hpk : .unique (.pk .revocationTask t.pk) ∈ held)
    (hepoch : .unique (.revocationUserEpoch t.user t.authEpoch) ∈ held)
    (hkey : .unique (.revocationEventKey t.eventKey) ∈ held)
    (hlock : .row .user t.user ∈ held) :
    Respects p held s (addRevocationTask t s) := by
  refine Respects.of_table .revocationTask ?_
    { Keeps.refl s with tasks := (List.prefix_append _ _).map _ } ?_ ?_ ?_
  · intro t' ht
    cases t' <;> first | rfl | exact absurd rfl ht
  · intro t' n ht ho
    cases t' with
    | user =>
        refine ⟨RowStays.refl _ _ _, rfl, { OwnedSame.refl n s with tasks := ?_ }⟩
        have hne : ¬ (t.user == n) = true := by
          intro hc
          rw [← eq_of_beq hc] at ho
          exact not_open_row hlock ho
        show ((s.revocationTasks ++ [t]).filter _).map _ = _
        rw [List.filter_append, List.filter_cons, if_neg hne, List.filter_nil,
          List.append_nil]
    | revocationTask => exact rowStays_append t
    | _ => exact absurd ht (by decide)
  · exact fun _ _ ht => absurd ht (by decide)
  · intro i hi ho h
    cases i with
    | pk t' n =>
        cases hi
        exact index_of_append ho (fun hq => by rw [← eq_of_beq hq]; exact hpk) h
    | revocationUserEpoch u e =>
        refine index_of_append ho (fun hq => ?_) h
        rw [Bool.and_eq_true, beq_iff_eq, beq_iff_eq] at hq
        rw [← hq.1, ← hq.2]
        exact hepoch
    | revocationEventKey k =>
        exact index_of_append ho (fun hq => by rw [← eq_of_beq hq]; exact hkey) h
    | _ => exact nomatch hi

/-- Session rows keep their keys. -/
theorem respects_updateSessions {pks : List Nat} {f : UserSessionIndex → UserSessionIndex}
    (hf : ∀ r, (f r).pk = r.pk ∧ (f r).sessionKey = r.sessionKey) :
    Respects p held s (updateSessions pks f s) := by
  refine Respects.of_unguarded .sessionIndex (fun t' => by cases t' <;> decide) (by decide)
    ?_ { Keeps.refl s with } ?_
  · intro t ht
    cases t <;> first | rfl | exact absurd rfl ht
  · intro i hi _ h
    cases i with
    | pk t n =>
        cases hi
        refine Eq.trans (any_map_congr fun r => ?_) h
        split
        · rw [(hf r).1]
        · rfl
    | sessionKey k =>
        refine Eq.trans (any_map_congr fun r => ?_) h
        split
        · rw [(hf r).2]
        · rfl
    | _ => exact nomatch hi

/-- A session row takes its key. -/
theorem respects_addSession {r : UserSessionIndex}
    (hpk : .unique (.pk .sessionIndex r.pk) ∈ held)
    (hkey : .unique (.sessionKey r.sessionKey) ∈ held) :
    Respects p held s (addSession r s) := by
  refine Respects.of_unguarded .sessionIndex (fun t' => by cases t' <;> decide) (by decide)
    ?_ { Keeps.refl s with } ?_
  · intro t ht
    cases t <;> first | rfl | exact absurd rfl ht
  · intro i hi ho h
    cases i with
    | pk t n =>
        cases hi
        exact index_of_append ho (fun hq => by rw [← eq_of_beq hq]; exact hpk) h
    | sessionKey k =>
        exact index_of_append ho (fun hq => by rw [← eq_of_beq hq]; exact hkey) h
    | _ => exact nomatch hi

/-- Favorites are deleted without a lock. -/
theorem respects_removeFavorites {pks : List Nat} :
    Respects p held s (removeFavorites pks s) := by
  refine Respects.of_table .favorite ?_ { Keeps.refl s with } ?_ ?_ ?_
  · intro t ht
    cases t <;> first | rfl | exact absurd rfl ht
  · intro t n ht _
    cases t with
    | user =>
        refine ⟨RowStays.refl _ _ _, rfl, { OwnedSame.refl n s with favorites := ?_ }⟩
        exact fun r hr _ => (List.mem_filter.mp hr).1
    | _ => exact absurd ht (by decide)
  · exact fun _ _ ht => absurd ht (by decide)
  · intro i hi _ h
    cases i with
    | pk t n =>
        cases hi
        exact any_filter_false h
    | favorite u n => exact any_filter_false h
    | _ => exact nomatch hi

/-- So are notifications. -/
theorem respects_removeNotifications {pks : List Nat} :
    Respects p held s (removeNotifications pks s) := by
  refine Respects.of_table .notification ?_ { Keeps.refl s with } ?_ ?_ ?_
  · intro t ht
    cases t <;> first | rfl | exact absurd rfl ht
  · intro t n ht _
    cases t with
    | user =>
        refine ⟨RowStays.refl _ _ _, rfl, { OwnedSame.refl n s with notifications := ?_ }⟩
        exact fun r hr _ => (List.mem_filter.mp hr).1
    | _ => exact absurd ht (by decide)
  · exact fun _ _ ht => absurd ht (by decide)
  · intro i hi _ h
    cases i with
    | pk t n =>
        cases hi
        exact any_filter_false h
    | notification u k => exact any_filter_false h
    | _ => exact nomatch hi

/-- A metric row takes the key of its product. -/
theorem respects_addMetric {m : ProductMetric}
    (hkey : .unique (.productMetric m.product) ∈ held) :
    Respects p held s (addMetric m s) := by
  refine Respects.of_unguarded .productMetric (fun t' => by cases t' <;> decide) (by decide)
    ?_ { Keeps.refl s with } ?_
  · intro t ht
    cases t <;> first | rfl | exact absurd rfl ht
  · intro i hi ho h
    cases i with
    | pk t n =>
        cases hi
        exact h
    | productMetric n =>
        exact index_of_append ho (fun hq => by rw [← eq_of_beq hq]; exact hkey) h
    | _ => exact nomatch hi

/-- A metric row is rewritten without a lock. -/
theorem respects_setMetric {m : ProductMetric} : Respects p held s (setMetric m s) := by
  refine Respects.of_unguarded .productMetric (fun t' => by cases t' <;> decide) (by decide)
    ?_ { Keeps.refl s with } ?_
  · intro t ht
    cases t <;> first | rfl | exact absurd rfl ht
  · intro i hi _ h
    cases i with
    | pk t n =>
        cases hi
        exact h
    | productMetric n =>
        refine Eq.trans (any_map_congr fun r => ?_) h
        by_cases hr : r.product = m.product
        · rw [if_pos hr, hr]
        · rw [if_neg hr]
    | _ => exact nomatch hi

/-- **CATALOGUE**: a licensed write respects the locks of others. -/
theorem respects_licensed {k : WriteKind} {f : Store → Store} (h : Licensed held k f)
    (s : Store) : Respects p held s (f s) := by
  cases h with
  | products pks f hlock hf => exact respects_updateProducts hlock hf
  | favorites pks => exact respects_removeFavorites
  | notifications pks => exact respects_removeNotifications
  | newMetric m hkey => exact respects_addMetric hkey
  | metric m => exact respects_setMetric
  | closing n now hlock => exact respects_updateAccount (fun _ => rfl) hlock
  | transferAudit a => exact respects_addTransferAudit a
  | withdrawal u now hlock => exact respects_updateUser (fun _ _ => rfl) hlock
  | task t hpk hepoch hkey hlock => exact respects_addRevocationTask hpk hepoch hkey hlock
  | report r hpk huser hproduct => exact respects_addReport hpk huser hproduct
  | consumed pks n => exact respects_consumeReports
  | action a hpk hlock => exact respects_addAction hpk hlock
  | auditEvent e hkey => exact respects_addAuditEvent hkey
  | bump n hlock => exact respects_updateUser (fun _ _ => rfl) hlock
  | adminAudit a =>
      refine Respects.of_free (fun t => ?_) { Keeps.refl s with }
      cases t <;> rfl
  | release r hkey hlock => exact respects_addRelease hkey hlock
  | grant n f hlock hf => exact respects_updateGrant hlock hf
  | sessions pks f hf => exact respects_updateSessions hf
  | newSession r hpk hkey => exact respects_addSession hpk hkey
  | trade t hpk hkey hlock => exact respects_addTrade hpk hkey hlock
  | tradeHistory r hkey => exact respects_addTradeHistory hkey
  | profile u hlock => exact respects_updateUser (fun _ h => h.symm) hlock

end Respect

end Market
