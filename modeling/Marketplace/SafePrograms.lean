import Marketplace.TxnFrames
import Marketplace.WriteCatalogue

/-! # The services make licensed writes only

    One lemma for each function of the services: in a context that permits the kinds
    of writes it makes, it is safe.  With the locking rules for a context this says
    that the function respects the locks of others; with a frame, that it leaves
    alone what the frame keeps. -/

namespace Market

open TxnProgram TxnLogic TxnBody TxnFrames

variable {Γ : Ctx Store Lock Exn Obs} {ls : List Lock} {α ρ : Type}

/-- The context allows every licensed write of the kind. -/
def Permits (Γ : Ctx Store Lock Exn Obs) (k : WriteKind) : Prop :=
  ∀ held f, Licensed held k f → ∀ s, Γ.leave held s (f s)

/-- The context allows the kinds of a list. -/
def PermitsAll (Γ : Ctx Store Lock Exn Obs) (ks : List WriteKind) : Prop :=
  ∀ k ∈ ks, Permits Γ k

/-- Who permits more kinds of writes permits fewer. -/
theorem PermitsAll.sub {ks ks' : List WriteKind} (h : PermitsAll Γ ks') (hsub : ks ⊆ ks') :
    PermitsAll Γ ks := fun k hk => h k (hsub hk)

/-- A context that abides by the locking rules allows all kinds. -/
theorem Abides.permits {p : Platform} (hA : Abides p Γ) (ks : List WriteKind) :
    PermitsAll Γ ks :=
  fun _ _ held _ hf s => hA.leave held _ _ (respects_licensed hf s)

/-- What every kind of write keeps, a program keeps that makes no others. -/
theorem body_keeps (hΓ : Lawful Γ) {ks : List WriteKind} (h : PermitsAll Γ ks)
    {W : Store → Store → Prop} (hW : Composes W)
    (hkeep : ∀ k ∈ ks, ∀ held f, Licensed held k f → ∀ s, W s (f s)) {m : M α}
    (hm : ∀ Γ', Lawful Γ' → PermitsAll Γ' ks → Safe Γ' ls m) {w : World Store Lock Obs}
    (hopen : w.sess.frames ≠ []) (hheld : ∀ l ∈ ls, l ∈ w.sess.held) :
    Body Γ m w (fun _ w' => ∀ s, W (w.sess.pend s) (w'.sess.pend s)) anyError :=
  (Body.framed (hm Γ hΓ h w hopen hheld) (hm _ (frame_lawful Γ.deferred hW)
    fun k hk held f hf s => hkeep k hk held f hf s) hopen hheld).mono fun _ _ _ hp => hp.2

/-! ## Statements -/

/-- Queries write nothing, nor do queries of the clock. -/
theorem safe_fetch (hΓ : Lawful Γ) (q : Store → α) : Safe Γ ls (fetch q) :=
  Safe.select hΓ _

theorem safe_fetchNow (hΓ : Lawful Γ) (q : Time → Store → α) : Safe Γ ls (fetchNow q) :=
  Safe.select hΓ _

/-- A locking query takes locks, and writes nothing. -/
theorem safe_selectForUpdate (hΓ : Lawful Γ) (t : Table) (rows : Store → List ρ)
    (pk : ρ → Nat) (p : ρ → Bool) : Safe Γ ls (selectForUpdate t rows pk p) :=
  Safe.of_look hΓ fun _ => look_selectForUpdate hΓ anyError_faults t rows pk p

/-- So does `get` with a lock. -/
theorem safe_getForUpdate (hΓ : Lawful Γ) (t : Table) (rows : Store → List ρ)
    (pk : ρ → Nat) (p : ρ → Bool) : Safe Γ ls (getForUpdate t rows pk p) :=
  Safe.of_look hΓ fun _ => look_getForUpdate hΓ anyError_faults t rows pk p trivial

/-- A row is locked, and the rest runs under its lock. -/
theorem Safe.bindRow (hΓ : Lawful Γ) {t : Table} {rows : Store → List ρ} {pk : ρ → Nat}
    {p : ρ → Bool} {f : ρ → M α}
    (hf : ∀ r, p r = true → Safe Γ (.row t (pk r) :: ls) (f r)) :
    Safe Γ ls (getForUpdate t rows pk p >>= f) := by
  refine Safe.bindLocked hΓ (fun r => [.row t (pk r)]) (fun w => (look_getForUpdate hΓ
    anyError_faults t rows pk p trivial).mono fun r w' _ hr => ⟨hr.2.1, ?_⟩) hf
  intro l hl
  rw [List.mem_singleton.mp hl]
  exact hr.2.2

theorem safe_getRow (hΓ : Lawful Γ) (t : Table) (q : Store → Option ρ) :
    Safe Γ ls (getRow t q) :=
  Safe.of_look hΓ fun _ => look_getRow hΓ anyError_faults t q trivial

/-- An insert holds its index entries when it writes. -/
theorem safe_insertRow (hΓ : Lawful Γ) {keys : List Index} {f : Store → Store}
    (h : ∀ held, (∀ l ∈ ls, l ∈ held) → (∀ i ∈ keys, .unique i ∈ held) →
      ∀ s, Γ.leave held s (f s)) : Safe Γ ls (insertRow keys f) :=
  fun _ _ hheld => (body_insertRow hΓ anyError_faults trivial fun held hsub hkeys =>
    h held (fun l hl => hsub (hheld l hl)) hkeys).mono fun _ _ _ _ => trivial

/-- An update holds the locks of its rows when it writes. -/
theorem safe_updateRows (hΓ : Lawful Γ) {t : Table} {pks : List Nat} {f : Store → Store}
    (h : ∀ held, (∀ n ∈ pks, .row t n ∈ held) → ∀ s, Γ.leave held s (f s)) :
    Safe Γ ls (updateRows t pks f) :=
  fun _ _ _ => (body_updateRows hΓ anyError_faults fun held _ hlocks =>
    h held hlocks).mono fun _ _ _ _ => trivial

/-- A delete is permitted for whatever rows it finds. -/
theorem safe_deleteRows (hΓ : Lawful Γ) {t : Table} {rows : Store → List ρ} {pk : ρ → Nat}
    {p : ρ → Bool} {remove : List Nat → Store → Store}
    (h : ∀ found held s, Γ.leave held s (remove found s)) :
    Safe Γ ls (deleteRows t rows pk p remove) :=
  Safe.bind hΓ (safe_fetch hΓ _) fun found =>
    Safe.lockedWrite hΓ _ fun held _ _ s => h found held s

/-- `get_or_create` looks, inserts in a savepoint, and looks again. -/
theorem safe_getOrCreate (hΓ : Lawful Γ) {find : M (Option ρ)} {create : M ρ}
    (hfind : ∀ w, Look Γ find w (fun _ _ => True) anyError) (hcreate : Safe Γ ls create) :
    Safe Γ ls (getOrCreate find create) := by
  intro w hopen hheld
  refine body_getOrCreate (P := fun _ _ => True) hΓ anyError_faults hopen
    (fun w1 _ => (hfind w1).mono fun _ _ _ _ _ _ => trivial) fun w1 w' h1 he => ?_
  refine (hcreate w'.begin ?_ fun l hl => ?_).mono fun _ _ _ _ _ _ => trivial
  · rw [World.begin_frames]
    exact List.cons_ne_nil _ _
  · rw [World.begin_held, he.sess]
    exact h1.held (hheld l hl)

/-- What a look has found may be forgotten. -/
theorem look_true {m : M α} {w : World Store Lock Obs} {P : α → World Store Lock Obs → Prop}
    (h : Look Γ m w P anyError) : Look Γ m w (fun _ _ => True) anyError :=
  h.mono fun _ _ _ _ => trivial

/-! ## Products and trades -/

/-- The counts are of the product. -/
theorem look_metricCounts (hΓ : Lawful Γ) (product : Nat) (w : World Store Lock Obs) :
    Look Γ (metricCounts product) w
      (fun m w' => m.product = product ∧ ∀ l ∈ ([] : List Lock), l ∈ w'.sess.held)
      anyError :=
  Look.bind hΓ (look_fetch anyError_faults _) fun _ _ _ _ =>
    Look.bind hΓ (look_fetch anyError_faults _) fun _ _ _ _ =>
      Look.bind hΓ (look_fetch anyError_faults _) fun _ _ _ _ =>
        Look.bind hΓ (look_fetch anyError_faults _) fun _ _ _ _ =>
          Look.ret hΓ ⟨rfl, fun _ hl => nomatch hl⟩

/-- The metric row is inserted or set. -/
theorem safe_recomputeProductMetric (hΓ : Lawful Γ) (h : PermitsAll Γ [.newMetric, .metric])
    (product : Nat) : Safe Γ ls (recomputeProductMetric product) := by
  refine Safe.atomic hΓ (Safe.bind hΓ (safe_getForUpdate hΓ _ _ _ _) fun row => ?_)
  refine Safe.bindLocked hΓ _ (look_metricCounts hΓ _) fun metric hmetric => ?_
  refine Safe.atomic hΓ ?_
  refine Safe.bind hΓ (safe_getOrCreate hΓ (fun w => ?_) ?_) fun ⟨_, created⟩ => ?_
  · exact look_true (look_firstForUpdate hΓ anyError_faults _ _ _ _)
  · refine Safe.bind hΓ (safe_insertRow hΓ fun held _ hkeys s => ?_) fun _ => Safe.ret hΓ _
    refine h .newMetric (by decide) held _ (.newMetric metric ?_) s
    rw [hmetric]
    exact hkeys _ List.mem_cons_self
  · cases created with
    | true => exact Safe.ret hΓ _
    | false =>
        refine Safe.bind hΓ (safe_updateRows hΓ fun held _ s => ?_) fun _ => Safe.ret hΓ _
        exact h .metric (by decide) held _ (.metric metric) s

/-- The transaction of `product_delete` archives one product. -/
theorem safe_productDeleteBody (hΓ : Lawful Γ) (h : PermitsAll Γ [.products])
    (user product : Nat) (version : Int) :
    Safe Γ ls (productDeleteBody user product version) := by
  refine Safe.bind hΓ (Safe.tryCatch hΓ (safe_getForUpdate hΓ _ _ _ _) fun e => ?_)
    fun locked => ?_
  · split <;> exact Safe.raise hΓ _
  · split
    · exact Safe.ret hΓ _
    · refine Safe.bind hΓ (Safe.select hΓ _) fun now => Safe.bind hΓ (Safe.fresh hΓ)
        fun updatedAt => Safe.bind hΓ (safe_updateRows hΓ fun held hlocks s => ?_)
          fun _ => Safe.ret hΓ _
      exact h .products (by decide) held _
        (.products _ (archive now updatedAt) hlocks fun _ => rfl) s

/-! ## Withdrawal -/

/-- Two rows are locked. -/
theorem safe_lockMockAccount (hΓ : Lawful Γ) (user : Nat) :
    Safe Γ ls (lockMockAccount user) := by
  refine Safe.tryCatch hΓ (Safe.bind hΓ (safe_getForUpdate hΓ _ _ _ _) fun _ =>
    Safe.bind hΓ (safe_getForUpdate hΓ _ _ _ _) fun _ => Safe.ret hΓ _) fun e => ?_
  split <;> exact Safe.raise hΓ _

/-- Eight queries. -/
theorem safe_assertRetentionAuthoritiesAvailable (hΓ : Lawful Γ) :
    Safe Γ ls assertRetentionAuthoritiesAvailable :=
  Safe.bind hΓ (safe_fetch hΓ _) fun _ => Safe.bind hΓ (safe_fetch hΓ _) fun _ =>
    Safe.bind hΓ (safe_fetch hΓ _) fun _ => Safe.bind hΓ (safe_fetch hΓ _) fun _ =>
      Safe.bind hΓ (safe_fetch hΓ _) fun _ => Safe.bind hΓ (safe_fetch hΓ _) fun _ =>
        Safe.bind hΓ (safe_fetch hΓ _) fun _ => Safe.bind hΓ (safe_fetch hΓ _) fun _ =>
          Safe.ret hΓ _

/-- The checks of a withdrawal lock and read. -/
theorem safe_withdrawalScope (hΓ : Lawful Γ) (user : User) :
    Safe Γ ls (withdrawalScope user) := by
  refine Safe.bind hΓ (safe_fetch hΓ _) fun _ => Safe.bind hΓ (safe_fetch hΓ _) fun _ =>
    Safe.bind hΓ (safe_fetch hΓ _) fun _ => ?_
  refine Safe.bind hΓ (safe_selectForUpdate hΓ _ _ _ _) fun _ =>
    Safe.bind hΓ (safe_selectForUpdate hΓ _ _ _ _) fun _ =>
      Safe.bind hΓ (Safe.raiseIf hΓ _ _) fun _ => ?_
  refine Safe.bind hΓ (safe_lockMockAccount hΓ _) fun _ =>
    Safe.bind hΓ (Safe.raiseIf hΓ _ _) fun _ => ?_
  refine Safe.bind hΓ (safe_selectForUpdate hΓ _ _ _ _) fun _ =>
    Safe.bind hΓ (safe_selectForUpdate hΓ _ _ _ _) fun _ => ?_
  exact Safe.bind hΓ (safe_assertRetentionAuthoritiesAvailable hΓ) fun _ => Safe.ret hΓ _

/-- The metrics one after the other. -/
theorem safe_recomputeMetrics (hΓ : Lawful Γ) (h : PermitsAll Γ [.newMetric, .metric])
    (products : List Nat) : Safe Γ ls (recomputeMetrics products) := by
  induction products with
  | nil => exact Safe.ret hΓ _
  | cons n products ih =>
      exact Safe.bind hΓ (safe_recomputeProductMetric hΓ h n) fun _ => ih

/-- The kinds of writes of a withdrawal, without the user's own row. -/
def holdingWrites : List WriteKind :=
  [.products, .favorites, .notifications, .newMetric, .metric]

/-- Products, favorites, metrics and notifications of the user. -/
theorem safe_clearHoldings (hΓ : Lawful Γ) (h : PermitsAll Γ holdingWrites) (user : User)
    (scope : WithdrawalScope) (now : Time) : Safe Γ ls (clearHoldings user scope now) := by
  refine Safe.bind hΓ ?_ fun _ => Safe.bind hΓ (safe_deleteRows hΓ fun found held s => ?_)
    fun _ => Safe.bind hΓ (safe_recomputeMetrics hΓ (h.sub (by decide)) _) fun _ =>
      safe_deleteRows hΓ fun found held s => ?_
  · rw [archiveAvailable]
    split
    · exact Safe.ret hΓ _
    · exact safe_updateRows hΓ fun held hlocks s =>
        h .products (by decide) held _ (.products _ (archive now now) hlocks fun _ => rfl) s
  · exact h .favorites (by decide) held _ (.favorites found) s
  · exact h .notifications (by decide) held _ (.notifications found) s

/-- The account is closed and the closing audited. -/
theorem safe_closeWithdrawnAccount (hΓ : Lawful Γ)
    (h : PermitsAll Γ [.closing, .transferAudit]) (user : User) (account : MockAccount)
    (now : Time) : Safe Γ ls (closeWithdrawnAccount user account now) := by
  rw [closeWithdrawnAccount]
  split
  · refine Safe.bind hΓ (safe_updateRows hΓ fun held hlocks s => ?_) fun _ =>
      safe_insertRow hΓ fun held _ _ s => ?_
    · exact h .closing (by decide) held _ (.closing _ _ (hlocks _ List.mem_cons_self)) s
    · exact h .transferAudit (by decide) held _ (.transferAudit _) s
  · exact Safe.ret hΓ _

/-- The task is found, or inserted under the lock of the user. -/
theorem safe_revocationTask (hΓ : Lawful Γ) (h : PermitsAll Γ [.task])
    {user : Nat} (hlock : .row .user user ∈ ls) (authEpoch : Nat) :
    Safe Γ ls (revocationTask user authEpoch) := by
  refine safe_getOrCreate hΓ (fun w => look_true (look_fetch anyError_faults _))
    (Safe.bind hΓ (Safe.fresh hΓ) fun n => Safe.bind hΓ (Safe.fresh hΓ) fun _ =>
      Safe.bind hΓ (safe_insertRow hΓ fun held hheld hkeys s => ?_) fun _ => Safe.ret hΓ _)
  refine h .task (by decide) held _ (.task _ (hkeys _ List.mem_cons_self)
    (hkeys _ (List.mem_cons_of_mem _ List.mem_cons_self)) (hkeys _ ?_) (hheld _ hlock)) s
  exact List.mem_cons_of_mem _ (List.mem_cons_of_mem _ List.mem_cons_self)

/-- The kinds of writes of a withdrawal. -/
def withdrawalWrites : List WriteKind :=
  holdingWrites ++ [.closing, .transferAudit, .withdrawal, .task]

/-- The transaction of `withdraw_account`. -/
theorem safe_withdrawAccountBody (hΓ : Lawful Γ) (h : PermitsAll Γ withdrawalWrites)
    (user : Nat) (password : String) : Safe Γ ls (withdrawAccountBody user password) := by
  refine Safe.bindRow hΓ fun u _ => ?_
  split
  · exact Safe.bind hΓ (safe_getRow hΓ _ _) fun _ => Safe.ret hΓ _
  · refine Safe.bind hΓ (Safe.raiseIf hΓ _ _) fun _ =>
      Safe.bind hΓ (safe_withdrawalScope hΓ u) fun scope => ?_
    refine Safe.bind hΓ (Safe.select hΓ _) fun now =>
      Safe.bind hΓ (safe_clearHoldings hΓ (h.sub (by decide)) _ _ _) fun _ =>
        Safe.bind hΓ (safe_closeWithdrawnAccount hΓ (h.sub (by decide)) _ _ _) fun _ => ?_
    refine Safe.bind hΓ (safe_updateRows hΓ fun held hlocks s => ?_) fun _ =>
      Safe.bind hΓ (safe_revocationTask hΓ (h.sub (by decide)) List.mem_cons_self _)
        fun _ => Safe.ret hΓ _
    exact h .withdrawal (by decide) held _ (.withdrawal _ _ (hlocks _ List.mem_cons_self)) s

/-! ## Moderation -/

/-- The row lock of a target. -/
def targetLock (targetType : TargetType) (target : Nat) : Lock :=
  match targetType with
  | .user => .row .user target
  | .product | .review => .row .product target

/-- The sanctions of a user are read. -/
theorem safe_effectiveUserStatus (hΓ : Lawful Γ) (user : Nat) :
    Safe Γ ls (effectiveUserStatus user) :=
  Safe.bind hΓ (safe_fetchNow hΓ _) fun _ => Safe.ret hΓ _

theorem safe_effectiveProductVisibility (hΓ : Lawful Γ) (product : Nat) :
    Safe Γ ls (effectiveProductVisibility product) :=
  Safe.bind hΓ (safe_fetch hΓ _) fun _ => Safe.bind hΓ (safe_fetchNow hΓ _) fun _ =>
    Safe.ret hΓ _

/-- So are those of a reporter. -/
theorem safe_reporterCanContribute (hΓ : Lawful Γ) (reporter : User) (now : Time) :
    Safe Γ ls (reporterCanContribute reporter now) := by
  rw [reporterCanContribute]
  split
  · exact Safe.bind hΓ (safe_effectiveUserStatus hΓ _) fun _ => Safe.ret hΓ _
  · exact Safe.ret hΓ _

/-- The row of a target user, as it was when it was locked. -/
structure LockedTarget (Γ : Ctx Store Lock Exn Obs) (w w' : World Store Lock Obs)
    (target : Nat) (u : User) : Prop where
  pk : u.pk = target
  locked : ∃ w1, Still Γ w w1 ∧ Still Γ w1 w' ∧ .row .user target ∈ w1.sess.held ∧
    u ∈ w1.view.users

/-- The parties are locked, and the clock is read after that. -/
theorem look_lockSubmissionParties (hΓ : Lawful Γ) (reporter : Nat) (targetType : TargetType)
    (target : Nat) (w : World Store Lock Obs) :
    Look Γ (lockSubmissionParties reporter targetType target) w
      (fun parties w' => parties.databaseNow ≤ w'.now ∧
        targetLock targetType target ∈ w'.sess.held ∧ (targetType = .user →
          ∃ u, parties.targetUser = some u ∧ LockedTarget Γ w w' target u)) anyError := by
  -- a review is looked up like a product
  have hproduct : Look Γ (lockSubmissionParties reporter .product target) w
      (fun parties w' => parties.databaseNow ≤ w'.now ∧
        .row .product target ∈ w'.sess.held) anyError := by
    refine Look.bind (P := fun _ w1 => .row .product target ∈ w1.sess.held) hΓ
      (Look.tryCatch (G := anyError) hΓ ?_ fun e w1 _ _ => ?_)
      fun _ w1 _ hlock => ?_
    · refine Look.bind hΓ (look_getForUpdate hΓ anyError_faults _ _ _ _ trivial)
        fun product w1 _ ⟨_, hp, hlock⟩ => ?_
      rw [Bool.and_eq_true, beq_iff_eq] at hp
      rw [hp.1] at hlock
      exact Look.bind hΓ (look_getForUpdate hΓ anyError_faults _ _ _ _ trivial)
        fun _ w2 h2 _ => Look.ret hΓ (h2.held hlock)
    · split <;> exact Look.raise hΓ trivial
    · exact Look.bind hΓ (look_clockTimestamp anyError_faults) fun now w2 h2 hnow =>
        Look.ret hΓ ⟨Nat.le_of_eq hnow, h2.held hlock⟩
  cases targetType with
  | user =>
      refine Look.bind hΓ (look_selectForUpdate hΓ anyError_faults _ _ _ _)
        fun users w1 h1 hrows => ?_
      cases hr : users.find? (·.pk == reporter) with
      | none => exact Look.raise hΓ trivial
      | some reporterUser =>
          cases ht : users.find? (·.pk == target) with
          | none => exact Look.raise hΓ trivial
          | some targetUser =>
              have hpk := List.find?_some ht
              have hlock := hrows.held _ (List.mem_of_find?_eq_some ht)
              rw [show targetUser.pk = target from eq_of_beq hpk] at hlock
              refine Look.bind hΓ (look_clockTimestamp anyError_faults) fun now w2 h2 hnow =>
                Look.ret hΓ ⟨Nat.le_of_eq hnow, h2.held hlock, fun _ => ⟨targetUser, rfl,
                  eq_of_beq hpk, w1, h1, h2, hlock, ?_⟩⟩
              exact (hrows.mem (List.mem_of_find?_eq_some ht)).1
  | product => exact hproduct.mono fun _ _ _ h => ⟨h.1, h.2, fun ht => by cases ht⟩
  | review => exact hproduct.mono fun _ _ _ h => ⟨h.1, h.2, fun ht => by cases ht⟩

/-- The reports are gone through one by one. -/
theorem safe_eligibleReports (hΓ : Lawful Γ) (now : Time) :
    ∀ (rows : List (AbuseReport × User))
      (acc : List AbuseReport × List (ReportContext × List Nat)),
      Safe Γ ls (eligibleReports now rows acc) := by
  intro rows
  induction rows with
  | nil => exact fun _ => Safe.ret hΓ _
  | cons row rest ih =>
      rintro ⟨eligible, byContext⟩
      refine Safe.bind hΓ (safe_reporterCanContribute hΓ _ _) fun canContribute => ?_
      cases canContribute with
      | true => exact ih _
      | false => exact ih _

/-- What qualifies is read. -/
theorem safe_qualifyingReports (hΓ : Lawful Γ) (targetType : TargetType) (target : Nat)
    (now : Time) : Safe Γ ls (qualifyingReports targetType target now) :=
  Safe.bind hΓ (safe_fetch hΓ _) fun _ => safe_eligibleReports hΓ _ _ _

/-- An action is inserted under the lock of its target. -/
theorem safe_createAction (hΓ : Lawful Γ) (h : PermitsAll Γ [.action])
    {targetType : TargetType} {target : Nat} (hlock : targetLock targetType target ∈ ls)
    (startsAt : Time) : Safe Γ ls (createAction targetType target startsAt) := by
  refine Safe.bind hΓ (Safe.fresh hΓ) fun n => Safe.bind hΓ
    (safe_insertRow hΓ fun held hheld hkeys s => ?_) fun _ => Safe.ret hΓ _
  refine h .action (by decide) held _ (.action _ ?_ ?_) s
  · cases targetType <;> exact hkeys _ List.mem_cons_self
  · have hl := hheld _ hlock
    cases targetType with
    | user => exact ⟨fun m hm => by cases hm; exact hl, fun _ hm => (nomatch hm)⟩
    | product => exact ⟨fun _ hm => (nomatch hm), fun m hm => by cases hm; exact hl⟩
    | review => exact ⟨fun _ hm => (nomatch hm), fun m hm => by cases hm; exact hl⟩

/-- The epoch of a dormant user is raised. -/
theorem safe_revokeSessions (hΓ : Lawful Γ) (h : PermitsAll Γ [.bump])
    (targetType : TargetType) (target : Nat) :
    Safe Γ ls (revokeSessions targetType target) := by
  rw [revokeSessions]
  split
  · exact safe_updateRows hΓ fun held hlocks s =>
      h .bump (by decide) held _ (.bump _ (hlocks _ List.mem_cons_self)) s
  · exact Safe.ret hΓ _

/-- The kinds of writes of a sanction by reports, after the action. -/
def afterActionWrites : List WriteKind := [.consumed, .bump, .auditEvent]

/-- What `_evaluate_locked` writes after the action. -/
theorem safe_afterAction (hΓ : Lawful Γ) (h : PermitsAll Γ afterActionWrites)
    (targetType : TargetType) (target : Nat) (pks : List Nat) (action : ModerationAction)
    {e : AuditEvent} (he : e.action = some action.pk) :
    Safe Γ ls (do
      updateRows .report pks (consumeReports pks action.pk)
      revokeSessions targetType target
      insertRow [.auditAction action.pk] (addAuditEvent e)
      return action) := by
  refine Safe.bind hΓ (safe_updateRows hΓ fun held _ s => ?_) fun _ =>
    Safe.bind hΓ (safe_revokeSessions hΓ (h.sub (by decide)) _ _) fun _ =>
      Safe.bind hΓ (safe_insertRow hΓ fun held _ hkeys s => ?_) fun _ => Safe.ret hΓ _
  · exact h .consumed (by decide) held _ (.consumed _ _) s
  · refine h .auditEvent (by decide) held _ (.auditEvent _ fun n hn => ?_) s
    rw [he] at hn
    cases hn
    exact hkeys _ List.mem_cons_self

/-- Observations are shown whatever they are of, except those of reservations. -/
def ShowsMarks (Γ : Ctx Store Lock Exn Obs) : Prop :=
  ∀ v now s, (∀ product buyer seen seenAt, v ≠ .reserving product buyer seen seenAt) →
    Γ.given v now s → Γ.shown v now s

/-- A mark of anything but a reservation. -/
theorem safe_mark (hΓ : Lawful Γ) (hshow : ShowsMarks Γ) (v : Obs)
    (hv : ∀ product buyer seen seenAt, v ≠ .reserving product buyer seen seenAt) :
    Safe Γ ls (Prog.observe v : M Unit) :=
  Safe.observe hΓ v fun now s => hshow v now s hv

/-- The kinds of writes of a sanction by reports. -/
def sanctionWrites : List WriteKind := .action :: afterActionWrites

/-- The policy, with the target locked. -/
theorem safe_evaluateLocked (hΓ : Lawful Γ) (h : PermitsAll Γ sanctionWrites)
    (hshow : ShowsMarks Γ) {targetType : TargetType} {target : Nat}
    (hlock : targetLock targetType target ∈ ls) (now : Time) (actor : Option Nat) :
    Safe Γ ls (evaluateLocked targetType target now actor) := by
  refine Safe.bind hΓ (safe_fetchNow hΓ _) fun ⟨active, checkedAt⟩ => ?_
  dsimp only
  split
  · exact Safe.ret hΓ _
  · refine Safe.bind hΓ (safe_qualifyingReports hΓ _ _ _) fun ⟨reports, byContext⟩ =>
      Safe.bind hΓ (Safe.ofAnswer hΓ _) fun qualifies => ?_
    cases qualifies with
    | false => exact Safe.ret hΓ _
    | true =>
        refine Safe.bind hΓ (safe_mark hΓ hshow _ fun _ _ _ _ hv => nomatch hv) fun _ =>
          Safe.bind hΓ (Safe.bind hΓ (safe_createAction hΓ (h.sub (by decide)) hlock _)
            fun action => ?_) fun _ => Safe.ret hΓ _
        exact safe_afterAction hΓ (h.sub (by decide)) _ _ _ action rfl

/-- A report is inserted with the keys of its reporter and target. -/
theorem safe_createReport (hΓ : Lawful Γ) (h : PermitsAll Γ [.report])
    (targetType : TargetType) (context : ReportContext) (reason : String)
    (parties : SubmissionParties) :
    Safe Γ ls (createReport targetType context reason parties) := by
  refine Safe.bind hΓ (Safe.fresh hΓ) fun n => Safe.bind hΓ (Safe.raiseIf hΓ _ _) fun _ =>
    Safe.bind hΓ (safe_insertRow hΓ fun held _ hkeys s => ?_) fun _ => Safe.ret hΓ _
  refine h .report (by decide) held _ (.report _ (hkeys _ List.mem_cons_self) ?_ ?_) s
  · intro m hm
    refine hkeys _ (List.mem_cons_of_mem _ (List.mem_append_left _ ?_))
    exact List.mem_map.mpr ⟨m, Option.mem_toList.mpr hm, rfl⟩
  · intro m hm
    refine hkeys _ (List.mem_cons_of_mem _ (List.mem_append_right _ ?_))
    exact List.mem_map.mpr ⟨m, Option.mem_toList.mpr hm, rfl⟩

theorem safe_mayReport (hΓ : Lawful Γ) (parties : SubmissionParties) :
    Safe Γ ls (mayReport parties) := by
  rw [mayReport.eq_def]
  split
  · split
    · exact Safe.ret hΓ _
    · exact Safe.bind hΓ (safe_effectiveUserStatus hΓ _) fun _ => Safe.ret hΓ _
  · split
    · exact Safe.ret hΓ _
    · exact Safe.bind hΓ (safe_effectiveProductVisibility hΓ _) fun _ => Safe.ret hΓ _
  · exact Safe.ret hΓ _

/-- The kinds of writes of a report. -/
def reportWrites : List WriteKind := .report :: sanctionWrites

/-- The transaction of `submit_report`. -/
theorem safe_submitReportBody (hΓ : Lawful Γ) (h : PermitsAll Γ reportWrites)
    (hshow : ShowsMarks Γ) (reporter : Nat) (targetType : TargetType) (target : Nat)
    (context : ReportContext) (reason : String) :
    Safe Γ ls (submitReportBody reporter targetType target context reason) := by
  refine Safe.bindLocked (P := fun _ => True) hΓ (fun _ => [targetLock targetType target])
    (fun w => (look_lockSubmissionParties hΓ reporter targetType target w).mono
      fun _ _ _ hw => ⟨trivial, fun l hl => ?_⟩) fun parties _ => ?_
  · rw [List.mem_singleton.mp hl]
    exact hw.2.1
  · refine Safe.bind hΓ (safe_reporterCanContribute hΓ _ _) fun _ =>
      Safe.bind hΓ (Safe.raiseIf hΓ _ _) fun _ => ?_
    refine Safe.bind hΓ (safe_mayReport hΓ parties) fun _ =>
      Safe.bind hΓ (Safe.raiseIf hΓ _ _) fun _ => ?_
    refine Safe.bind hΓ (safe_createReport hΓ (h.sub (by decide)) _ _ _ _) fun _ =>
      Safe.bind hΓ (safe_evaluateLocked hΓ (h.sub (by decide)) hshow ?_ _ _) fun _ =>
        Safe.ret hΓ _
    exact List.mem_cons_self

end Market
