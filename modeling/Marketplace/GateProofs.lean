import Mathlib.Data.List.Nodup
import Marketplace.Accounts
import Marketplace.CallRules

/-! # The gates on accounts and the two product visibilities

    Four functions decide whether an account may act, and two whether a product is
    public; each is a query of its own over the history of sanctions.  Every one is
    evaluated to a predicate of the store and the time, and the predicates are
    compared. -/

namespace Market

open TxnProgram TxnRuns

/-! ## What the gates compute -/

/-- A dormancy of the user is in its window, released or not. -/
def dormancyInWindow (user : Nat) (t : Time) (s : Store) : Bool :=
  s.actions.any fun a => a.isDormancyOf user && a.inWindow t

/-- A dormancy of the user is in force: in its window and not released. -/
def dormancyInForce (user : Nat) (t : Time) (s : Store) : Bool :=
  s.actions.any fun a => a.isDormancyOf user && (a.inWindow t && !released s a)

/-- A hide of the product is in its window, released or not. -/
def hideInWindow (product : Nat) (t : Time) (s : Store) : Bool :=
  s.actions.any fun a => a.isHideOf product && a.inWindow t

/-- A hide of the product is in force. -/
def hideInForce (product : Nat) (t : Time) (s : Store) : Bool :=
  s.actions.any fun a => a.isHideOf product && (a.inWindow t && !released s a)

/-- One question to the active actions, written over the table itself. -/
theorem activeActions_any (t : Time) (s : Store) (q : ModerationAction → Bool) :
    (activeActions t s).any q =
      s.actions.any fun a => q a && (a.inWindow t && !released s a) := by
  rw [activeActions, List.any_filter]
  exact congrArg (s.actions.any ·) (funext fun a => Bool.and_comm _ _)

variable {d : Store → Store → Option Exn} {ids : Nat → Nat} {s : Store}
  {t start : Time}

/-- The status of a user is one query, and answers by the dormancies in force. -/
theorem ends_effectiveUserStatus (user : Nat) :
    Ends d (effectiveUserStatus user) ids s t start
      (.ok (if dormancyInForce user t s then .dormant else .active)) ids id := by
  refine Ends.look (ends_fetchNow _) ?_
  rw [activeActions_any]
  exact Ends.ret _

/-- The visibility of a product is two queries over the same store. -/
theorem ends_effectiveProductVisibility (product : Nat) :
    Ends d (effectiveProductVisibility product) ids s t start
      (.ok (if hideInForce product t s
        || !(s.products.any fun p => p.pk == product && p.archivedAt.isNone)
        then .hidden else .visible)) ids id := by
  refine Ends.look (ends_fetch _) (Ends.look (ends_fetchNow _) ?_)
  rw [activeActions_any]
  exact Ends.ret _

/-- The transfer's own check asks for the window, and not for the release. -/
theorem ends_isActiveUser (user : Nat) :
    Ends d (isActiveUser user) ids s t start
      (.ok ((s.users.any fun u => u.pk == user && u.isActive && u.withdrawnAt.isNone)
        && !dormancyInWindow user t s)) ids id := by
  refine Ends.look (ends_fetch _) ?_
  cases hrow : s.users.any fun u => u.pk == user && u.isActive && u.withdrawnAt.isNone with
  | false => exact Ends.ret _
  | true =>
      rw [if_pos (by rfl), Bool.true_and]
      refine Ends.look (ends_fetchNow _) ?_
      have hsame : (s.actions.any fun a => a.kind == .userDormancy
          && a.targetUser == some user && decide (a.startsAt ≤ t)
          && decide (t < a.expiresAt)) = dormancyInWindow user t s :=
        congrArg (s.actions.any ·) (funext fun a => Bool.and_assoc _ _ _)
      rw [hsame]
      exact Ends.ret _

/-- What is not in its window is not in force. -/
theorem dormancyInForce_of_window {user : Nat}
    (h : dormancyInWindow user t s = false) : dormancyInForce user t s = false := by
  rw [dormancyInWindow, List.any_eq_false] at h
  rw [dormancyInForce, List.any_eq_false]
  intro a ha hf
  rw [← Bool.and_assoc, Bool.and_eq_true] at hf
  exact h a ha hf.1

/-! ## One row for each key -/

/-- Rows with different keys: the row with the key of one of them is that one. -/
theorem filter_eq_singleton {ρ : Type} {pk : ρ → Nat} {rows : List ρ}
    (h : (rows.map pk).Nodup) {r : ρ} (hr : r ∈ rows) :
    rows.filter (fun x => pk x == pk r) = [r] := by
  induction rows with
  | nil => exact nomatch hr
  | cons x xs ih =>
      rw [List.map_cons, List.nodup_cons] at h
      rcases List.mem_cons.mp hr with rfl | hr
      · rw [List.filter_cons, if_pos (beq_self_eq_true _), List.filter_eq_nil_iff.mpr]
        intro y hy hpk
        rw [beq_iff_eq] at hpk
        exact h.1 (hpk ▸ List.mem_map_of_mem hy)
      · have hne : ¬ (pk x == pk r) = true := by
          intro hpk
          rw [beq_iff_eq] at hpk
          exact h.1 (hpk ▸ List.mem_map_of_mem hr)
        rw [List.filter_cons, if_neg hne, ih h.2 hr]

/-- A condition on the row with a key. -/
theorem filter_key_and {ρ : Type} {pk : ρ → Nat} {rows : List ρ}
    (h : (rows.map pk).Nodup) {r : ρ} (hr : r ∈ rows) (q : ρ → Bool) :
    rows.filter (fun x => pk x == pk r && q x) = if q r then [r] else [] := by
  have hsplit : rows.filter (fun x => pk x == pk r && q x) =
      (rows.filter fun x => pk x == pk r).filter q := by
    rw [List.filter_filter]
    exact List.filter_congr fun x _ => Bool.and_comm _ _
  rw [hsplit, filter_eq_singleton h hr]
  cases hq : q r with
  | true => rw [List.filter_cons_of_pos hq, List.filter_nil, if_pos rfl]
  | false =>
      rw [List.filter_cons_of_neg (by rw [hq]; exact Bool.false_ne_true),
        List.filter_nil, if_neg Bool.false_ne_true]

/-- A search by key and condition finds the row of the key, or nothing. -/
theorem find_key_and {ρ : Type} {pk : ρ → Nat} {rows : List ρ}
    (h : (rows.map pk).Nodup) {r : ρ} (hr : r ∈ rows) (q : ρ → Bool) :
    rows.find? (fun x => pk x == pk r && q x) = if q r then some r else none := by
  rw [← List.head?_filter, filter_key_and h hr]
  cases q r <;> rfl

/-- So does the question whether there is one. -/
theorem any_key_and {ρ : Type} {pk : ρ → Nat} {rows : List ρ}
    (h : (rows.map pk).Nodup) {r : ρ} (hr : r ∈ rows) (q : ρ → Bool) :
    rows.any (fun x => pk x == pk r && q x) = q r := by
  rw [← List.any_filter, filter_eq_singleton h hr, List.any_cons, List.any_nil,
    Bool.or_false]

/-! ## The account gates -/

/-- The user is active, not withdrawn, and not dormant by the canonical status. -/
def ActiveAccount (ids : Nat → Nat) (t : Time) (s : Store) (u : User) : Prop :=
  u.isActive = true ∧ u.withdrawnAt = none ∧
    call (atomic (effectiveUserStatus u.pk)) ids t s = (.ok .active, s)

/-- Every gate lets through exactly the active accounts. -/
structure GatesAgree (ids : Nat → Nat) (t : Time) (s : Store) (u : User) : Prop where
  transfers : (call (atomic (isActiveUser u.pk)) ids t s).1 = .ok true ↔
    ActiveAccount ids t s u
  chat : ∀ lock, (∃ r, (call (atomic (requireActiveUser u.pk lock)) ids t s).1 = .ok r) ↔
    ActiveAccount ids t s u
  trades : (∃ r, (call (atomic (lockActiveUsers [u.pk])) ids t s).1 = .ok r) ↔
    ActiveAccount ids t s u

theorem activeAccount_iff {u : User} :
    ActiveAccount ids t s u ↔
      u.isActive = true ∧ u.withdrawnAt = none ∧ dormancyInForce u.pk t s = false := by
  rw [ActiveAccount, call_look (ends_effectiveUserStatus u.pk)]
  cases dormancyInForce u.pk t s with
  | true => exact ⟨fun h => (nomatch h.2.2), fun h => (nomatch h.2.2)⟩
  | false => exact ⟨fun h => ⟨h.1, h.2.1, rfl⟩, fun h => ⟨h.1, h.2.1, rfl⟩⟩

theorem isActiveUser_iff (hkey : (s.users.map User.pk).Nodup) {u : User}
    (hu : u ∈ s.users) :
    (call (atomic (isActiveUser u.pk)) ids t s).1 = .ok true ↔
      u.isActive = true ∧ u.withdrawnAt = none ∧ dormancyInWindow u.pk t s = false := by
  have hrow : (s.users.any fun x => x.pk == u.pk && x.isActive && x.withdrawnAt.isNone) =
      (u.isActive && u.withdrawnAt.isNone) := by
    rw [← any_key_and hkey hu fun x => x.isActive && x.withdrawnAt.isNone]
    exact congrArg (s.users.any ·) (funext fun x => Bool.and_assoc _ _ _)
  rw [call_look (ends_isActiveUser u.pk), hrow, Except.ok.injEq, Bool.and_eq_true,
    Bool.and_eq_true, Option.isNone_iff_eq_none, Bool.not_eq_true', and_assoc]

theorem requireActiveUser_iff (hkey : (s.users.map User.pk).Nodup) {u : User}
    (hu : u ∈ s.users) (lock : Bool) :
    (∃ r, (call (atomic (requireActiveUser u.pk lock)) ids t s).1 = .ok r) ↔
      u.isActive = true ∧ u.withdrawnAt = none ∧ dormancyInForce u.pk t s = false := by
  have hfind := find_key_and hkey hu User.isActive
  have denied : ∀ {m : M User},
      Ends validateBalancedJournal m ids s t t
        (.error (.chatAuthorizationError "Chat is unavailable.")) ids id →
      ¬ ∃ r, (call (atomic m) ids t s).1 = .ok r := by
    rintro m h ⟨r, hr⟩
    rw [call_error h] at hr
    exact nomatch hr
  -- one case for each check of the source, in its order
  cases hactive : u.isActive with
  | false =>
      rw [hactive, if_neg Bool.false_ne_true] at hfind
      refine ⟨fun h => absurd h (denied ?_), fun h => nomatch h.1⟩
      refine Ends.bindError (Ends.tryError (e := .doesNotExist .user) ?_ (Ends.raise _))
      cases lock with
      | true => exact ends_getForUpdate_none hfind
      | false => exact ends_getRow_none hfind
  | true =>
      rw [hactive, if_pos rfl] at hfind
      have hload : ∀ {f : Exn → M User}, Ends validateBalancedJournal (Prog.tryCatch
          (if lock = true then
            getForUpdate .user (·.users) (·.pk) fun x => x.pk == u.pk && x.isActive
          else getRow .user fun s => s.users.find? fun x => x.pk == u.pk && x.isActive) f)
          ids s t t (.ok u) ids id := by
        intro f
        refine Ends.tryOk ?_
        cases lock with
        | true => exact ends_getForUpdate hfind
        | false => exact ends_getRow hfind
      cases hwithdrawn : u.withdrawnAt with
      | some at' =>
          refine ⟨fun h => absurd h (denied ?_), fun h => nomatch h.2.1⟩
          refine Ends.look hload ?_
          rw [effectiveAccountStatus, hwithdrawn]
          exact Ends.raise _
      | none =>
          cases hdormant : dormancyInForce u.pk t s with
          | true =>
              refine ⟨fun h => absurd h (denied ?_), fun h => nomatch h.2.2⟩
              refine Ends.look hload ?_
              rw [effectiveAccountStatus, hwithdrawn]
              refine Ends.look (ends_effectiveUserStatus u.pk) ?_
              rw [hdormant]
              exact Ends.raise _
          | false =>
              have h : Ends validateBalancedJournal (requireActiveUser u.pk lock) ids s
                  t t (.ok u) ids id := by
                refine Ends.look hload ?_
                rw [effectiveAccountStatus, hwithdrawn]
                refine Ends.look (ends_effectiveUserStatus u.pk) ?_
                rw [hdormant]
                exact Ends.ret u
              refine ⟨fun _ => ⟨rfl, rfl, rfl⟩, fun _ => ⟨u, ?_⟩⟩
              rw [call_look h]

theorem anyDormant_single (user : Nat) : anyDormant [user] t s = dormancyInForce user t s := by
  refine congrArg (s.actions.any ·) (funext fun a => ?_)
  have htarget : (a.targetUser.any fun x => [user].contains x) =
      (a.targetUser == some user) := by
    cases a.targetUser with
    | none => rfl
    | some n =>
        show [user].contains n = (some n == some user)
        rw [List.contains_cons, List.contains_nil, Bool.or_false]
        exact (Option.some_beq_some ..).symm
  rw [ModerationAction.isDormancyOf, htarget, Bool.and_assoc]

theorem lockActiveUsers_iff (hkey : (s.users.map User.pk).Nodup) {u : User}
    (hu : u ∈ s.users) :
    (∃ r, (call (atomic (lockActiveUsers [u.pk])) ids t s).1 = .ok r) ↔
      u.isActive = true ∧ u.withdrawnAt = none ∧ dormancyInForce u.pk t s = false := by
  have hrows : s.users.filter (fun x => [u.pk].contains x.pk) = [u] := by
    rw [← filter_eq_singleton hkey hu]
    refine List.filter_congr fun x _ => ?_
    rw [List.contains_cons, List.contains_nil, Bool.or_false]
  have hlocked : Ends validateBalancedJournal (selectForUpdate .user (·.users) (·.pk)
      fun x => [u.pk].contains x.pk) ids s t t (.ok [u]) ids id := by
    rw [← hrows]
    exact ends_selectForUpdate _ _ _ _
  have denied : ∀ {m : M (List User)},
      Ends validateBalancedJournal m ids s t t
        (.error (.tradeError "TRADE_NOT_ALLOWED")) ids id →
      ¬ ∃ r, (call (atomic m) ids t s).1 = .ok r := by
    rintro m h ⟨r, hr⟩
    rw [call_error h] at hr
    exact nomatch hr
  have hone : ([u].length != [u.pk].dedup.length) = false := rfl
  cases hbad : [u].any fun x => !x.isActive || x.withdrawnAt.isSome with
  | true =>
      refine ⟨fun h => absurd h (denied ?_), fun h => ?_⟩
      · exact Ends.look hlocked (Ends.look (Ends.raiseIf_false hone)
          (Ends.bindError (Ends.raiseIf_true hbad)))
      · rw [List.any_cons, List.any_nil, h.1, h.2.1] at hbad
        exact nomatch hbad
  | false =>
      have hgood : u.isActive = true ∧ u.withdrawnAt = none := by
        rw [List.any_cons, List.any_nil, Bool.or_false, Bool.or_eq_false_iff,
          Bool.not_eq_false', Option.isSome_eq_false_iff, Option.isNone_iff_eq_none] at hbad
        exact hbad
      cases hdormant : dormancyInForce u.pk t s with
      | true =>
          refine ⟨fun h => absurd h (denied ?_), fun h => nomatch h.2.2⟩
          refine Ends.look hlocked (Ends.look (Ends.raiseIf_false hone)
            (Ends.look (Ends.raiseIf_false hbad) (Ends.look (ends_fetchNow _)
              (Ends.bindError (Ends.raiseIf_true ?_)))))
          exact (anyDormant_single u.pk).trans hdormant
      | false =>
          have h : Ends validateBalancedJournal (lockActiveUsers [u.pk]) ids s
              t t (.ok [u]) ids id := by
            refine Ends.look hlocked (Ends.look (Ends.raiseIf_false hone)
              (Ends.look (Ends.raiseIf_false hbad) (Ends.look (ends_fetchNow _)
                (Ends.look (Ends.raiseIf_false ?_) (Ends.ret _)))))
            exact (anyDormant_single u.pk).trans hdormant
          refine ⟨fun _ => ⟨hgood.1, hgood.2, rfl⟩, fun _ => ⟨[u], ?_⟩⟩
          rw [call_look h]

/-- A dormancy in its window and none in force: a released one. -/
def OnlyReleasedDormancy (user : Nat) (t : Time) (s : Store) : Prop :=
  (∃ a ∈ s.actions, a.isDormancyOf user = true ∧ a.inWindow t = true) ∧
    ∀ a ∈ s.actions, a.isDormancyOf user = true → a.inWindow t = true →
      released s a = true

theorem onlyReleasedDormancy_iff {user : Nat} :
    OnlyReleasedDormancy user t s ↔
      dormancyInWindow user t s = true ∧ dormancyInForce user t s = false := by
  rw [OnlyReleasedDormancy, dormancyInWindow, dormancyInForce, List.any_eq_true,
    List.any_eq_false]
  refine and_congr (exists_congr fun a => and_congr_right fun _ => ?_)
    (forall_congr' fun a => forall_congr' fun _ => ?_)
  · rw [Bool.and_eq_true]
  · rw [Bool.and_eq_true, Bool.and_eq_true, Bool.not_eq_true', not_and, not_and,
      Bool.not_eq_false]

/-- **ACCOUNT GATES**: they agree on an account unless a released dormancy is all that
    is left in its window, which the transfer gate alone still counts. -/
theorem gatesAgree_iff (ids : Nat → Nat) (t : Time) (s : Store)
    (hkey : (s.users.map User.pk).Nodup) (u : User) (hu : u ∈ s.users) :
    GatesAgree ids t s u ↔
      ¬ (u.isActive = true ∧ u.withdrawnAt = none ∧ OnlyReleasedDormancy u.pk t s) := by
  rw [onlyReleasedDormancy_iff]
  constructor
  · rintro h ⟨hactive, hwithdrawn, hwindow, hforce⟩
    have hopen := h.transfers.mpr (activeAccount_iff.mpr ⟨hactive, hwithdrawn, hforce⟩)
    have hclosed := ((isActiveUser_iff hkey hu).mp hopen).2.2
    rw [hwindow] at hclosed
    exact nomatch hclosed
  · intro h
    refine ⟨?_, fun lock => ?_, ?_⟩
    · rw [isActiveUser_iff hkey hu, activeAccount_iff]
      refine and_congr_right fun hactive => and_congr_right fun hwithdrawn => ?_
      constructor
      · exact fun hwindow => dormancyInForce_of_window hwindow
      · intro hforce
        rw [← Bool.not_eq_true]
        exact fun hwindow => h ⟨hactive, hwithdrawn, hwindow, hforce⟩
    · rw [requireActiveUser_iff hkey hu, activeAccount_iff]
    · rw [lockActiveUsers_iff hkey hu, activeAccount_iff]

/-- A store of one active user, whose dormancy was released in its window. -/
def releasedDormancy : Store :=
  { users := [{ pk := 1, username := "alice" }]
    actions := [{ pk := 1, kind := .userDormancy, targetUser := some 1,
                  startsAt := 0, expiresAt := days 7 }]
    releases := [{ action := 1, actor := 2, reason := "lifted on review" }] }

/-- After the release chat and trades let the user through, and transfers do not. -/
theorem gates_disagree_after_release :
    ¬ ∀ (ids : Nat → Nat) (t : Time) (s : Store), (s.users.map User.pk).Nodup →
      ∀ u ∈ s.users, GatesAgree ids t s u := by
  intro h
  have hagree := h (fun _ => 0) (days 1) releasedDormancy (by decide)
    { pk := 1, username := "alice" } List.mem_cons_self
  have hopen := hagree.transfers.mpr ⟨rfl, rfl, rfl⟩
  have hclosed : (call (atomic (isActiveUser 1)) (fun _ => 0) (days 1)
      releasedDormancy).1 = .ok false := rfl
  rw [hclosed] at hopen
  exact nomatch hopen

/-- An account without sanctions: the gates agree. -/
theorem gatesAgree_iff_unsanctioned :
    GatesAgree (fun _ => 0) (days 1) { releasedDormancy with actions := [] }
        { pk := 1, username := "alice" } ↔
      ¬ (true = true ∧ (none : Option Time) = none ∧
        OnlyReleasedDormancy 1 (days 1) { releasedDormancy with actions := [] }) :=
  gatesAgree_iff (fun _ => 0) (days 1) { releasedDormancy with actions := [] }
    (by decide) { pk := 1, username := "alice" } List.mem_cons_self

/-! ## The product visibilities -/

/-- A list shows exactly the products of its queryset that the detail page shows. -/
def ListsAgree (ids : Nat → Nat) (t : Time) (s : Store) (queryset : List Product) : Prop :=
  ∀ r, r ∈ visibleProducts t s queryset ↔ r ∈ queryset ∧
    (call (atomic (effectiveProductVisibility r.pk)) ids t s).1 = .ok .visible

/-- A hide in its window and none in force: a released one. -/
def OnlyReleasedHide (product : Nat) (t : Time) (s : Store) : Prop :=
  (∃ a ∈ s.actions, a.isHideOf product = true ∧ a.inWindow t = true) ∧
    ∀ a ∈ s.actions, a.isHideOf product = true → a.inWindow t = true →
      released s a = true

theorem onlyReleasedHide_iff {product : Nat} :
    OnlyReleasedHide product t s ↔
      hideInWindow product t s = true ∧ hideInForce product t s = false := by
  rw [OnlyReleasedHide, hideInWindow, hideInForce, List.any_eq_true, List.any_eq_false]
  refine and_congr (exists_congr fun a => and_congr_right fun _ => ?_)
    (forall_congr' fun a => forall_congr' fun _ => ?_)
  · rw [Bool.and_eq_true]
  · rw [Bool.and_eq_true, Bool.and_eq_true, Bool.not_eq_true', not_and, not_and,
      Bool.not_eq_false]

/-- No hide in its window, no hide in force. -/
theorem hideInForce_of_window {product : Nat}
    (h : hideInWindow product t s = false) : hideInForce product t s = false := by
  rw [hideInWindow, List.any_eq_false] at h
  rw [hideInForce, List.any_eq_false]
  intro a ha hf
  rw [← Bool.and_assoc, Bool.and_eq_true] at hf
  exact h a ha hf.1

/-- A product is listed if no hide of it is in its window. -/
theorem mem_visibleProducts {queryset : List Product} {r : Product} :
    r ∈ visibleProducts t s queryset ↔
      r ∈ queryset ∧ r.archivedAt = none ∧ hideInWindow r.pk t s = false := by
  rw [visibleProducts, List.mem_filter, List.mem_filter, Option.isNone_iff_eq_none,
    beq_iff_eq, and_assoc]
  rfl

/-- The canonical visibility of a stored product. -/
theorem effectiveProductVisibility_iff (hkey : (s.products.map Product.pk).Nodup)
    {r : Product} (hr : r ∈ s.products) :
    (call (atomic (effectiveProductVisibility r.pk)) ids t s).1 = .ok .visible ↔
      r.archivedAt = none ∧ hideInForce r.pk t s = false := by
  rw [call_look (ends_effectiveProductVisibility r.pk),
    any_key_and hkey hr fun x => x.archivedAt.isNone]
  cases hforce : hideInForce r.pk t s with
  | true => exact ⟨fun h => (nomatch h), fun h => (nomatch h.2)⟩
  | false =>
      cases harchived : r.archivedAt with
      | some at' => exact ⟨fun h => (nomatch h), fun h => (nomatch h.1)⟩
      | none => exact ⟨fun _ => ⟨rfl, rfl⟩, fun _ => rfl⟩

/-- **PRODUCT VISIBILITY**: list and detail agree unless an unarchived product of the
    list has only released hides left in their window, which the list still counts. -/
theorem listsAgree_iff (ids : Nat → Nat) (t : Time) (s : Store)
    (hkey : (s.products.map Product.pk).Nodup) (queryset : List Product)
    (hsub : queryset ⊆ s.products) :
    ListsAgree ids t s queryset ↔
      ∀ r ∈ queryset, r.archivedAt = none → ¬ OnlyReleasedHide r.pk t s := by
  constructor
  · intro h r hr harchived hreleased
    obtain ⟨hwindow, hforce⟩ := onlyReleasedHide_iff.mp hreleased
    have hlist := (mem_visibleProducts.mp ((h r).mpr ⟨hr,
      (effectiveProductVisibility_iff hkey (hsub hr)).mpr ⟨harchived, hforce⟩⟩)).2.2
    rw [hwindow] at hlist
    exact nomatch hlist
  · intro h r
    rw [mem_visibleProducts]
    refine and_congr_right fun hr => ?_
    rw [effectiveProductVisibility_iff hkey (hsub hr)]
    refine and_congr_right fun harchived => ?_
    constructor
    · exact fun hwindow => hideInForce_of_window hwindow
    · intro hforce
      rw [← Bool.not_eq_true]
      exact fun hwindow =>
        h r hr harchived (onlyReleasedHide_iff.mpr ⟨hwindow, hforce⟩)

/-- A store of one product, whose hide was released in its window. -/
def releasedHide : Store :=
  { products := [{ pk := 1, owner := 1 }]
    actions := [{ pk := 1, kind := .productHide, targetProduct := some 1,
                  startsAt := 0, expiresAt := days 7 }]
    releases := [{ action := 1, actor := 2, reason := "lifted on review" }] }

/-- After the release the detail page shows the product, and no list does. -/
theorem lists_disagree_after_release :
    ¬ ∀ (ids : Nat → Nat) (t : Time) (s : Store), (s.products.map Product.pk).Nodup →
      ∀ queryset : List Product, queryset ⊆ s.products → ListsAgree ids t s queryset := by
  intro h
  have hagree := h (fun _ => 0) (days 1) releasedHide (by decide)
    [{ pk := 1, owner := 1 }] (fun _ hr => hr)
  have hlist := (hagree { pk := 1, owner := 1 }).mpr ⟨List.mem_cons_self, rfl⟩
  have hempty : visibleProducts (days 1) releasedHide [{ pk := 1, owner := 1 }] = [] := rfl
  rw [hempty] at hlist
  exact nomatch hlist

/-- A product without sanctions: list and detail agree. -/
theorem listsAgree_iff_unsanctioned :
    ListsAgree (fun _ => 0) (days 1) { releasedHide with actions := [] }
        [{ pk := 1, owner := 1 }] ↔
      ∀ r ∈ ([{ pk := 1, owner := 1 }] : List Product), r.archivedAt = none →
        ¬ OnlyReleasedHide r.pk (days 1) { releasedHide with actions := [] } :=
  listsAgree_iff (fun _ => 0) (days 1) { releasedHide with actions := [] }
    (by decide) [{ pk := 1, owner := 1 }] (fun _ hr => hr)

end Market
