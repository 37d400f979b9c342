import Mathlib.Data.List.Basic
import Marketplace.AccountSpecs
import Marketplace.SafePrograms
import Marketplace.WithdrawalRuns

/-! # What a withdrawal commits

    The specification of `withdraw_account` in any interleaving.  Under the lock of
    its row nothing is added to what belongs to the user, so what the checks of the
    withdrawal saw still holds of the store that it commits to. -/

namespace Market

open TxnProgram TxnInterleaving TxnLogic TxnProtection TxnBody TxnFrames

variable {p : Platform} {Γ : Ctx Store Lock Exn Obs} {w w' : World Store Lock Obs}
  {F : Exn → Prop}

/-! ## The locks and checks -/

/-- What `withdraw_account` knows, when its checks have passed. -/
structure ScopeLocked (user : Nat) (scope : WithdrawalScope) (held : List Lock)
    (s : Store) : Prop where
  userLock : .row .user user ∈ held
  owned : ∀ r ∈ s.products, r.owner = user → ∃ x ∈ scope.products, x.pk = r.pk
  products : ∀ x ∈ scope.products, x ∈ s.products ∧ .row .product x.pk ∈ held
  trades : ∀ t ∈ scope.trades, t ∈ s.trades ∧ .row .trade t.pk ∈ held
  reserved : ∀ t ∈ s.trades, t.HasParty user → t.status ≠ .reserved
  account : scope.account ∈ s.accounts
  accountUser : scope.account.user = user
  accountEmpty : scope.account.balance = 0
  accountLock : .row .mockAccount scope.account.pk ∈ held

/-- What belongs to the user, later under the lock of the user. -/
theorem Abides.owned (hA : Abides p Γ) {user : Nat} (hn : Near Γ w w')
    (hl : .row .user user ∈ w.sess.held) : OwnedSame user w.db w'.db :=
  (hA.same hn hl).2.2

/-- What the withdrawal locked stays as it was read. -/
theorem ScopeLocked.near {user : Nat} {scope : WithdrawalScope} (hA : Abides p Γ)
    (h : ScopeLocked user scope w.sess.held w.db) (hn : Near Γ w w') :
    ScopeLocked user scope w'.sess.held w'.db where
  userLock := hn.held h.userLock
  owned r hr ho := by
    obtain ⟨x, hx, hid⟩ := List.mem_map.mp ((hA.owned hn h.userLock).products r hr ho)
    obtain ⟨y, hy, hpk⟩ := h.owned x hx ((congrArg Prod.snd hid).trans ho)
    exact ⟨y, hy, hpk.trans (congrArg Prod.fst hid)⟩
  products x hx := by
    obtain ⟨hmem, hl⟩ := h.products x hx
    exact ⟨(hA.same hn hl).1 x hmem rfl, hn.held hl⟩
  trades t ht := by
    obtain ⟨hmem, hl⟩ := h.trades t ht
    exact ⟨hA.same hn hl t hmem rfl, hn.held hl⟩
  reserved t ht hp hr := by
    obtain ⟨x, hx, -, hp', hr'⟩ := (hA.owned hn h.userLock).reserved t ht hp hr
    exact h.reserved x hx hp' hr'
  account := hA.same hn h.accountLock _ h.account rfl
  accountUser := h.accountUser
  accountEmpty := h.accountEmpty
  accountLock := hn.held h.accountLock

/-- A session that has written nothing sees the committed store. -/
theorem view_of_id (h : w.sess.pend = id) : w.view = w.db := by
  rw [World.view, h]
  rfl

/-- The account is read and locked in one query. -/
theorem look_lockMockAccount (hA : Abides p Γ) (user : Nat) (hpend : w.sess.pend = id) :
    Look Γ (lockMockAccount user) w (fun a w' => a ∈ w'.db.accounts ∧ a.user = user ∧
      .row .mockAccount a.pk ∈ w'.sess.held) anyError := by
  have hΓ := hA.lawful
  refine Look.tryCatch (G := anyError) hΓ ?_ fun e w1 _ _ => ?_
  · refine Look.bind hΓ (look_getForUpdate hΓ anyError_faults _ _ _ _ trivial)
      fun a w1 h1 ⟨hrow, huser, hlock⟩ => ?_
    rw [view_of_id (h1.pend.trans hpend)] at hrow
    refine Look.bind hΓ (look_getForUpdate hΓ anyError_faults _ _ _ _ trivial)
      fun _ w2 h2 _ => Look.ret hΓ ?_
    exact ⟨hA.same h2.toNear hlock a hrow rfl, eq_of_beq huser, h2.held hlock⟩
  · split <;> exact Look.raise hΓ trivial

/-- The products of the user are all among the locked ones. -/
theorem owned_locked (hA : Abides p Γ) {user : Nat} (others : List Nat) {found : List Product}
    {w1 w2 w3 : World Store Lock Obs} (hl : .row .user user ∈ w1.sess.held)
    (hpend : w1.sess.pend = id) (h12 : Still Γ w1 w2) (h23 : Still Γ w2 w3)
    (h : LockedRows Γ w2 .product (·.products) (·.pk) (fun r => ((w1.db.products.filter
      (·.owner == user)).map (·.pk) ++ others).contains r.pk) found w3) :
    ∀ r ∈ w3.db.products, r.owner = user → ∃ x ∈ found, x.pk = r.pk := by
  have hΓ := hA.lawful
  intro r hr ho
  have h13 : Still Γ w1 w3 := h12.trans hΓ h23
  obtain ⟨x, hx, hid⟩ := List.mem_map.mp ((hA.owned h13.toNear hl).products r hr ho)
  have hpk : x.pk = r.pk := congrArg Prod.fst hid
  have hxo : x.owner = user := (congrArg Prod.snd hid).trans ho
  have hwanted : ∀ y : Product, y.pk = r.pk → ((w1.db.products.filter
      (·.owner == user)).map (·.pk) ++ others).contains y.pk = true := by
    intro y hy
    rw [List.contains_iff_mem, hy, ← hpk]
    refine List.mem_append_left _ (List.mem_map.mpr ⟨x, List.mem_filter.mpr ⟨hx, ?_⟩, rfl⟩)
    exact beq_iff_eq.mpr hxo
  obtain ⟨wa, ha, hb, hfound⟩ := h.result
  have hviewa : wa.view = wa.db := view_of_id ((h12.trans hΓ ha).pend.trans hpend)
  have hview3 : w3.view = w3.db := view_of_id (h13.pend.trans hpend)
  -- the row was already there at the first look of the locking query
  obtain ⟨y, hy, hyid⟩ : ∃ y ∈ wa.db.products, y.pk = r.pk := by
    have hkeep := (hA.keeps (h12.trans hΓ ha).toNear).products
    obtain ⟨y, hy, hyid⟩ := List.mem_map.mp (hkeep.subset (List.mem_map_of_mem hx))
    exact ⟨y, hy, (congrArg Prod.fst hyid).trans hpk⟩
  refine ⟨r, ?_, rfl⟩
  rw [hfound, hview3, hviewa]
  refine List.mem_filter.mpr ⟨hr, ?_⟩
  rw [Bool.and_eq_true]
  refine ⟨hwanted r rfl, ?_⟩
  rw [List.contains_iff_mem]
  exact List.mem_map.mpr ⟨y, List.mem_filter.mpr ⟨hy, hwanted y hyid⟩, hyid⟩

/-- No reservation of the user has escaped the locks. -/
theorem reserved_locked (hA : Abides p Γ) {user : Nat} {found : List Trade}
    {w1 w2 : World Store Lock Obs} (hl : .row .user user ∈ w1.sess.held)
    (hpend : w1.sess.pend = id)
    (h : LockedRows Γ w1 .trade (·.trades) (·.pk) (fun t =>
      t.seller == user || t.buyer == some user) found w2) :
    ∀ t ∈ w2.db.trades, t.HasParty user → t.status = .reserved → t ∈ found := by
  have hΓ := hA.lawful
  have hparty : ∀ t : Trade, (t.seller == user || t.buyer == some user) = true ↔
      t.HasParty user := fun t => by
    rw [Bool.or_eq_true, beq_iff_eq, beq_iff_eq]
    exact Iff.rfl
  intro t ht hp hr
  obtain ⟨wa, ha, hb, hfound⟩ := h.result
  obtain ⟨x, hx, hpk, hp', -⟩ := (hA.owned hb.toNear (ha.held hl)).reserved t ht hp hr
  rw [hfound, view_of_id ((ha.trans hΓ hb).pend.trans hpend), view_of_id (ha.pend.trans hpend)]
  refine List.mem_filter.mpr ⟨ht, ?_⟩
  rw [Bool.and_eq_true, List.contains_iff_mem]
  refine ⟨(hparty t).mpr hp, ?_⟩
  exact List.mem_map.mpr ⟨x, List.mem_filter.mpr ⟨hx, (hparty x).mpr hp'⟩, hpk⟩

/-- The tables of the retained rows are only looked at. -/
theorem look_assertRetentionAuthoritiesAvailable (hΓ : Lawful Γ) :
    Look Γ assertRetentionAuthoritiesAvailable w (fun _ _ => True) anyError :=
  Look.bind hΓ (look_fetch anyError_faults _) fun _ _ _ _ =>
    Look.bind hΓ (look_fetch anyError_faults _) fun _ _ _ _ =>
    Look.bind hΓ (look_fetch anyError_faults _) fun _ _ _ _ =>
    Look.bind hΓ (look_fetch anyError_faults _) fun _ _ _ _ =>
    Look.bind hΓ (look_fetch anyError_faults _) fun _ _ _ _ =>
    Look.bind hΓ (look_fetch anyError_faults _) fun _ _ _ _ =>
    Look.bind hΓ (look_fetch anyError_faults _) fun _ _ _ _ =>
    Look.bind hΓ (look_fetch anyError_faults _) fun _ _ _ _ => Look.ret hΓ trivial

/-- **SPECIFICATION** of the locks and checks. -/
theorem look_withdrawalScope (hA : Abides p Γ) {u : User} (hl : .row .user u.pk ∈ w.sess.held)
    (hpend : w.sess.pend = id) :
    Look Γ (withdrawalScope u) w
      (fun scope w' => ScopeLocked u.pk scope w'.sess.held w'.db) anyError := by
  have hΓ := hA.lawful
  refine Look.bind hΓ (look_fetch anyError_faults _) fun owned w1 h1 howned => ?_
  refine Look.bind hΓ (look_fetch anyError_faults _) fun traded w2 h2 _ => ?_
  refine Look.bind hΓ (look_fetch anyError_faults _) fun favorites w3 h3 _ => ?_
  have hpend1 : w1.sess.pend = id := h1.pend.trans hpend
  have h13 : Still Γ w1 w3 := h2.trans hΓ h3
  refine Look.bind hΓ (look_selectForUpdate hΓ anyError_faults _ _ _ _)
    fun products w4 h4 hproducts => ?_
  have hpend4 : w4.sess.pend = id := (h13.trans hΓ h4).pend.trans hpend1
  have hl4 : .row .user u.pk ∈ w4.sess.held := (h13.trans hΓ h4).held (h1.held hl)
  have hmemProducts : ∀ x ∈ products, x ∈ w4.db.products := fun x hx => by
    rw [← view_of_id hpend4]
    exact (hproducts.mem hx).1
  have hlocked : ∀ r ∈ w4.db.products, r.owner = u.pk → ∃ x ∈ products, x.pk = r.pk := by
    refine owned_locked hA (traded ++ favorites) (h1.held hl) hpend1 h13 h4 ?_
    rw [howned, view_of_id hpend1, List.append_assoc] at hproducts
    exact hproducts
  refine Look.bind hΓ (look_selectForUpdate hΓ anyError_faults _ _ _ _)
    fun trades w5 h5 htrades => ?_
  have hpend5 : w5.sess.pend = id := h5.pend.trans hpend4
  have hmemTrades : ∀ t ∈ trades, t ∈ w5.db.trades := fun t ht => by
    rw [← view_of_id hpend5]
    exact (htrades.mem ht).1
  have hreserved := reserved_locked hA hl4 hpend4 htrades
  refine Look.bind hΓ (look_raiseIf hΓ fun _ => trivial) fun _ w6 h6 hnone => ?_
  have hpend6 : w6.sess.pend = id := h6.pend.trans hpend5
  refine Look.bind hΓ (look_lockMockAccount hA u.pk hpend6)
    fun account w7 h7 ⟨haccount, huser, haccountLock⟩ => ?_
  refine Look.bind hΓ (look_raiseIf hΓ fun _ => trivial) fun _ w8 h8 hzero => ?_
  -- the rest only looks: what is known now is still so at the end
  have h58 : Still Γ w5 w8 := h6.trans hΓ (h7.trans hΓ h8)
  have h48 : Still Γ w4 w8 := h5.trans hΓ h58
  have hready : ScopeLocked u.pk ⟨products, trades, favorites, account⟩ w8.sess.held w8.db := {
    userLock := h48.held hl4
    owned := fun r hr ho => by
      obtain ⟨x, hx, hid⟩ := List.mem_map.mp ((hA.owned h48.toNear hl4).products r hr ho)
      obtain ⟨y, hy, hpk⟩ := hlocked x hx ((congrArg Prod.snd hid).trans ho)
      exact ⟨y, hy, hpk.trans (congrArg Prod.fst hid)⟩
    products := fun x hx => by
      have hlock := hproducts.held x hx
      exact ⟨(hA.same h48.toNear hlock).1 x (hmemProducts x hx) rfl, h48.held hlock⟩
    trades := fun t ht => by
      have hlock := htrades.held t ht
      exact ⟨hA.same h58.toNear hlock t (hmemTrades t ht) rfl, h58.held hlock⟩
    reserved := fun t ht hp hr => by
      obtain ⟨x, hx, -, hp', hr'⟩ :=
        (hA.owned h58.toNear (h5.held hl4)).reserved t ht hp hr
      have hfound := hreserved x hx hp' hr'
      rw [List.any_eq_false] at hnone
      exact hnone x hfound (beq_iff_eq.mpr hr')
    account := hA.same h8.toNear haccountLock _ haccount rfl
    accountUser := huser
    accountEmpty := by
      rw [bne_eq_false_iff_eq] at hzero
      exact hzero
    accountLock := h8.held haccountLock }
  refine Look.bind hΓ (look_selectForUpdate hΓ anyError_faults _ _ _ _) fun _ w9 h9 _ => ?_
  refine Look.bind hΓ (look_selectForUpdate hΓ anyError_faults _ _ _ _) fun _ w10 h10 _ => ?_
  refine Look.bind hΓ (look_assertRetentionAuthoritiesAvailable hΓ) fun _ w11 h11 _ =>
    Look.ret hΓ ?_
  exact hready.near hA (h9.trans hΓ (h10.trans hΓ h11)).toNear

/-! ## The writes -/

/-- Nothing changed but the metrics. -/
def MetricsOnly (s s' : Store) : Prop := s' = { s with productMetrics := s'.productMetrics }

/-- Writing nothing but metrics composes. -/
theorem metricsOnly_composes : Composes MetricsOnly where
  refl s := rfl
  trans s s' s'' h h' := by
    rw [MetricsOnly, h', h]

theorem metricsOnly_licensed {k : WriteKind} (hk : k ∈ [WriteKind.newMetric, .metric])
    {held : List Lock} {f : Store → Store} (h : Licensed held k f) (s : Store) :
    MetricsOnly s (f s) := by
  cases h with
  | newMetric m _ => rfl
  | metric m => rfl
  | _ => exact absurd hk (by decide)

/-- What the writes of a withdrawal make of a store. -/
structure WithdrawalWrites (u : User) (now : Time) (scope : WithdrawalScope)
    (favorites notifications : List Nat) (f : Store → Store) : Prop where
  products : ∀ s, (f s).products =
    (updateProducts (availableProducts u scope) (archive now now) s).products
  favorites : ∀ s, (f s).favorites = (removeFavorites favorites s).favorites
  notifications : ∀ s, (f s).notifications = (removeNotifications notifications s).notifications
  users : ∀ s, (f s).users = (setWithdrawn u now s).users
  accounts : ∀ s, (f s).accounts = (closeIfOpen scope.account now s).accounts
  rest : ∀ s, f s = { s with
    products := (f s).products, favorites := (f s).favorites,
    notifications := (f s).notifications, productMetrics := (f s).productMetrics,
    users := (f s).users, accounts := (f s).accounts,
    transferAudits := (f s).transferAudits, revocationTasks := (f s).revocationTasks }

/-- An update of no product changes nothing. -/
theorem updateProducts_nil (f : Product → Product) (s : Store) : updateProducts [] f s = s := by
  have hsame : (s.products.map fun r => if ([] : List Nat).contains r.pk then f r else r) =
      s.products := List.map_id _
  show { s with products := s.products.map fun r =>
    if ([] : List Nat).contains r.pk then f r else r } = s
  rw [hsame]

/-- The products of the user are archived, in one `UPDATE`. -/
theorem body_archiveAvailable (hA : Abides p Γ) (u : User) (scope : WithdrawalScope)
    (now : Time) :
    Body Γ (archiveAvailable u scope now) w (fun _ w' => w'.sess.pend = fun s =>
      updateProducts (availableProducts u scope) (archive now now) (w.sess.pend s))
      anyError := by
  have hΓ := hA.lawful
  rw [archiveAvailable]
  split
  · rename_i hnone
    refine Body.ret hΓ ?_
    rw [List.isEmpty_iff.mp hnone]
    funext s
    exact (updateProducts_nil _ _).symm
  · refine (body_updateRows hΓ anyError_faults fun held _ hlocks s => hA.leave _ _ _
      (respects_updateProducts (f := archive now now) hlocks fun _ => rfl)).mono
      fun _ _ _ h => h.1

/-- One `DELETE` of the rows that belong to a locked user: nobody adds another. -/
theorem body_deleteRows (hA : Abides p Γ) {ρ : Type} {t : Table} {rows : Store → List ρ}
    {pk : ρ → Nat} {q : ρ → Bool} {remove : List Nat → Store → Store}
    (hrespects : ∀ pks held s, Respects p held s (remove pks s))
    (hsame : ∀ w1 w2, Near Γ w w1 → Near Γ w1 w2 → ∀ r ∈ rows w2.db, q r = true →
      r ∈ rows w1.db)
    (hview : ∀ w1, Still Γ w w1 → rows w1.view = rows w1.db) :
    Body Γ (deleteRows t rows pk q remove) w (fun _ w' => ∃ pks,
      (w'.sess.pend = fun s => remove pks (w.sess.pend s)) ∧
      ∀ w2, Near Γ w' w2 → ∀ r ∈ rows w2.db, q r = true → pk r ∈ pks) anyError := by
  have hΓ := hA.lawful
  refine Body.look hΓ (look_fetch anyError_faults _) fun pks w1 h1 hpks => ?_
  refine Body.look hΓ (Look.acquireAll hΓ anyError_faults _) fun _ w2 h2 _ => ?_
  refine (Body.write hΓ anyError_faults fun s => hA.leave _ _ _ (hrespects pks _ s)).mono
    fun _ w3 h3 hp3 => ⟨pks, ?_, fun w4 h4 r hr hq => ?_⟩
  · rw [hp3, (h1.trans hΓ h2).pend]
  · have hnear : Near Γ w1 w4 := h2.toNear.trans hΓ (h3.toNear.trans hΓ h4)
    rw [hpks, hview w1 h1]
    exact List.mem_map.mpr ⟨r, List.mem_filter.mpr
      ⟨hsame w1 w4 h1.toNear hnear r hr hq, hq⟩, rfl⟩

/-- The rows that belong to the user are all among those that are taken away. -/
structure HoldingsTaken (Γ : Ctx Store Lock Exn Obs) (user : Nat)
    (favorites notifications : List Nat) (w : World Store Lock Obs) : Prop where
  favorites : ∀ w', Near Γ w w' → ∀ r ∈ w'.db.favorites, r.user = user → r.pk ∈ favorites
  notifications : ∀ w', Near Γ w w' → ∀ r ∈ w'.db.notifications, r.recipient = user →
    r.pk ∈ notifications

/-- The holdings that were taken stay taken. -/
theorem HoldingsTaken.near (hΓ : Lawful Γ) {user : Nat} {favorites notifications : List Nat}
    (h : HoldingsTaken Γ user favorites notifications w) (hn : Near Γ w w') :
    HoldingsTaken Γ user favorites notifications w' where
  favorites w2 h2 := h.favorites w2 (hn.trans hΓ h2)
  notifications w2 h2 := h.notifications w2 (hn.trans hΓ h2)

/-- A premise about no locks. -/
theorem no_locks {held : List Lock} : ∀ l ∈ ([] : List Lock), l ∈ held := fun _ hl => nomatch hl

/-- The holdings are cleared in the order of the source, all of them or none. -/
theorem body_clearHoldings (hA : Abides p Γ) {u : User} (scope : WithdrawalScope) (now : Time)
    (hl : .row .user u.pk ∈ w.sess.held) (hpend : w.sess.pend = id)
    (hopen : w.sess.frames ≠ []) :
    Body Γ (clearHoldings u scope now) w (fun _ w' => ∃ favorites notifications,
      HoldingsTaken Γ u.pk favorites notifications w' ∧
      ∀ s, MetricsOnly (removeNotifications notifications (removeFavorites favorites
        (updateProducts (availableProducts u scope) (archive now now) s))) (w'.sess.pend s))
      anyError := by
  have hΓ := hA.lawful
  refine Body.bind hΓ (body_archiveAvailable hA u scope now) fun _ w1 h1 hp1 => ?_
  rw [hpend] at hp1
  refine Body.bind hΓ (body_deleteRows hA (fun _ _ _ => respects_removeFavorites)
    (fun w2 w3 h2 h3 r hr hu => ?_) fun w2 h2 => ?_) fun _ w2 h2 ⟨favorites, hp2, hfav⟩ => ?_
  · have hl2 : .row .user u.pk ∈ w2.sess.held := h2.held (h1.held hl)
    exact (hA.owned h3 hl2).favorites r hr (eq_of_beq hu)
  · rw [World.view, h2.pend, hp1]
    rfl
  have hopen2 : w2.sess.frames ≠ [] := by
    rw [h2.frames, h1.frames]
    exact hopen
  refine Body.bind hΓ (body_keeps hΓ (hA.permits [.newMetric, .metric]) metricsOnly_composes
    (fun k hk _ _ hf s => metricsOnly_licensed hk hf s)
    (fun _ hΓ' hp => safe_recomputeMetrics hΓ' hp _) hopen2 no_locks) fun _ w3 h3 hp3 => ?_
  have hview : ∀ s, (w3.sess.pend s).notifications = s.notifications := fun s => by
    rw [hp3 s, hp2, hp1]
    rfl
  refine (body_deleteRows hA (fun _ _ _ => respects_removeNotifications)
    (fun w4 w5 h4 h5 r hr hu => ?_) fun w4 h4 => ?_).mono
    fun _ w4 h4 hw4 => ?_
  · have hl4 : .row .user u.pk ∈ w4.sess.held :=
      h4.held (h3.held (h2.held (h1.held hl)))
    exact (hA.owned h5 hl4).notifications r hr (eq_of_beq hu)
  · rw [World.view, h4.pend]
    exact hview _
  · obtain ⟨notifications, hp4, hnotes⟩ := hw4
    refine ⟨favorites, notifications, ⟨fun w5 h5 r hr hu => ?_, fun w5 h5 r hr hu => ?_⟩, ?_⟩
    · exact hfav w5 (h3.toNear.trans hΓ (h4.toNear.trans hΓ h5)) r hr (beq_iff_eq.mpr hu)
    · exact hnotes w5 h5 r hr (beq_iff_eq.mpr hu)
    · intro s
      have h3 := hp3 s
      rw [MetricsOnly, hp2, hp1] at h3
      rw [MetricsOnly, hp4]
      show removeNotifications notifications (w3.sess.pend s) = _
      rw [h3]
      rfl

/-- The account of the user is closed with its audit, if it is open. -/
theorem body_closeWithdrawnAccount (hA : Abides p Γ) (u : User) (account : MockAccount)
    (now : Time) :
    Body Γ (closeWithdrawnAccount u account now) w (fun _ w' => ∀ s, ∃ audits,
      w'.sess.pend s = { closeIfOpen account now (w.sess.pend s) with transferAudits := audits })
      anyError := by
  have hΓ := hA.lawful
  rw [closeWithdrawnAccount]
  split
  · rename_i hopen
    refine Body.bind hΓ (body_updateRows hΓ anyError_faults fun held _ hlocks s => hA.leave _ _ _
      (respects_updateAccount (fun _ => rfl) (hlocks _ List.mem_cons_self)))
      fun _ w1 h1 hw1 => ?_
    have hp1 := hw1.1
    refine (body_insertRow hΓ anyError_faults trivial fun _ _ _ _ =>
      hA.leave _ _ _ (respects_addTransferAudit _)).mono fun _ w2 h2 hi s =>
      ⟨(w2.sess.pend s).transferAudits, ?_⟩
    rw [hi.pend, hp1, closeIfOpen, if_pos hopen]
    rfl
  · rename_i hclosed
    refine Body.ret hΓ fun s => ⟨(w.sess.pend s).transferAudits, ?_⟩
    rw [closeIfOpen, if_neg hclosed]

/-! ## The task -/

/-- No worker has claimed the task yet. -/
structure RevocationTask.Unclaimed (t : RevocationTask) : Prop where
  status : t.status = .pending
  attempts : t.attemptCount = 0
  lease : t.leaseExpiresAt = none
  heartbeat : t.heartbeatAt = none
  completed : t.completedAt = none

/-- The task that is returned: one that was there, or a new one. -/
inductive TaskEnd (user authEpoch : Nat) (task : RevocationTask) (created : Bool)
    (held : List Lock) (s : Store) (f : Store → Store) : Prop where
  | found : created = false → task.user = user → task.authEpoch = authEpoch →
      task.identity ∈ s.revocationTasks.map RevocationTask.identity →
      (∀ s, (f s).revocationTasks = s.revocationTasks) →
      TaskEnd user authEpoch task created held s f
  | added : created = true → task.user = user → task.authEpoch = authEpoch →
      task.eventKey = withdrawalEventKey user authEpoch → task.Unclaimed →
      Free held s (.pk .revocationTask task.pk) →
      Free held s (.revocationUserEpoch user authEpoch) →
      (∀ s, (f s).revocationTasks = s.revocationTasks ++ [task]) →
      TaskEnd user authEpoch task created held s f

/-- The tasks of a locked user keep their identity. -/
theorem Abides.task_stays (hA : Abides p Γ) {t : RevocationTask} (hn : Near Γ w w')
    (hl : .row .user t.user ∈ w.sess.held)
    (ht : t.identity ∈ w.db.revocationTasks.map RevocationTask.identity) :
    t.identity ∈ w'.db.revocationTasks.map RevocationTask.identity := by
  obtain ⟨x, hx, hid⟩ := List.mem_map.mp ht
  have huser : x.user = t.user := congrArg (·.2.1) hid
  have hmem : t.identity ∈ (w.db.revocationTasks.filter (·.user == t.user)).map
      RevocationTask.identity :=
    List.mem_map.mpr ⟨x, List.mem_filter.mpr ⟨hx, beq_iff_eq.mpr huser⟩, hid⟩
  rw [← (hA.owned hn hl).tasks] at hmem
  obtain ⟨y, hy, hid'⟩ := List.mem_map.mp hmem
  exact List.mem_map.mpr ⟨y, (List.mem_filter.mp hy).1, hid'⟩

/-- The pending task stays the one of this epoch while the user is locked. -/
theorem TaskEnd.near {user authEpoch : Nat} {task : RevocationTask} {created : Bool}
    (hA : Abides p Γ) (hl : .row .user user ∈ w.sess.held)
    (h : TaskEnd user authEpoch task created w.sess.held w.db w.sess.pend)
    (hs : Still Γ w w') :
    TaskEnd user authEpoch task created w'.sess.held w'.db w'.sess.pend := by
  have hn : Near Γ w w' := hs.toNear
  cases h with
  | found hc hu hepoch ht hf =>
      refine .found hc hu hepoch (hA.task_stays hn ?_ ht) ?_
      · rw [hu]
        exact hl
      · rw [hs.pend]
        exact hf
  | added hc hu hepoch hkey hnew hpk hfree hf =>
      refine .added hc hu hepoch hkey hnew (hpk.near hA hn) (hfree.near hA hn) ?_
      rw [hs.pend]
      exact hf

/-- Other sessions cannot write a task of a locked user. -/
theorem TaskEnd.env {user authEpoch : Nat} {task : RevocationTask} {created : Bool}
    (hA : Abides p Γ) (hl : .row .user user ∈ w.sess.held)
    (h : TaskEnd user authEpoch task created w.sess.held w.db w.sess.pend)
    (he : Env Γ w w') :
    TaskEnd user authEpoch task created w'.sess.held w'.db w'.sess.pend :=
  h.near hA hl he.still

/-- The task is found or written; there is one for a user and an epoch. -/
theorem body_revocationTask (hA : Abides p Γ) {user : Nat} (authEpoch : Nat)
    (hl : .row .user user ∈ w.sess.held)
    (hpend : ∀ s, (w.sess.pend s).revocationTasks = s.revocationTasks)
    (hopen : w.sess.frames ≠ []) :
    Body Γ (revocationTask user authEpoch) w (fun r w' => TaskEnd user authEpoch r.1 r.2
      w'.sess.held w'.db w'.sess.pend ∧ ∃ tasks : Store → List RevocationTask,
        ∀ s, w'.sess.pend s = { w.sess.pend s with revocationTasks := tasks s })
      anyError := by
  have hΓ := hA.lawful
  have hview : ∀ w', Still Γ w w' → w'.view.revocationTasks = w'.db.revocationTasks :=
    fun w' h => by
      rw [World.view, h.pend]
      exact hpend _
  refine body_getOrCreate hΓ anyError_faults hopen ?_ ?_
  · -- found
    intro w1 h1
    refine (look_fetch anyError_faults _).mono fun r w2 h2 hr t ht => ?_
    have h02 : Still Γ w w2 := h1.trans hΓ h2
    rw [ht, hview w2 h02] at hr
    have hp := List.find?_some hr.symm
    rw [Bool.and_eq_true, beq_iff_eq, beq_iff_eq] at hp
    refine ⟨.found rfl hp.1 hp.2 (List.mem_map_of_mem (List.mem_of_find?_eq_some hr.symm)) ?_,
      fun s => (w.sess.pend s).revocationTasks, fun s => ?_⟩
    · rw [h02.pend]
      exact hpend
    · rw [h02.pend]
  · -- not found: inserted in a savepoint, under its three unique keys
    intro w1 w2 h1 he
    refine Body.look hΓ Look.fresh fun n w3 h3 _ => ?_
    refine Body.look hΓ Look.fresh fun availableAt w4 h4 _ => ?_
    have hheld4 : ∀ l ∈ w.sess.held, l ∈ w4.sess.held := by
      intro l hm
      refine h4.held (h3.held ?_)
      rw [World.begin_held, he.sess]
      exact h1.held hm
    have hpend4 : w4.sess.pend = w.sess.pend := by
      rw [h4.pend, h3.pend, World.begin_pend, he.sess, h1.pend]
    refine Body.bind hΓ (body_insertRow hΓ anyError_faults trivial
      fun held hsub hkeys s => hA.leave _ _ _ (respects_addRevocationTask
        (hkeys _ List.mem_cons_self)
        (hkeys _ (List.mem_cons_of_mem _ List.mem_cons_self))
        (hkeys _ (List.mem_cons_of_mem _ (List.mem_cons_of_mem _ List.mem_cons_self)))
        (hsub (hheld4 _ hl)))) fun _ w5 h5 hi => Body.ret hΓ fun w6 he6 => ?_
    obtain ⟨wk, hk, hwk, hkeys, hfree⟩ := hi.free
    have hviewk : wk.view.revocationTasks = wk.db.revocationTasks := by
      rw [World.view, hk.pend, hpend4]
      exact hpend _
    have hsettled : ∀ i ∈ [Index.pk .revocationTask n, .revocationUserEpoch user authEpoch,
        .revocationEventKey (withdrawalEventKey user authEpoch)],
        Free w6.sess.held w6.db i := by
      intro i hm
      have hat : Free wk.sess.held wk.db i := by
        refine ⟨hkeys i hm, ?_⟩
        rw [← hfree i hm]
        refine (Index.present_congr ?_).symm
        have htable : i.table = .revocationTask := by
          rcases List.mem_cons.mp hm with rfl | hm
          · rfl
          · rcases List.mem_cons.mp hm with rfl | hm
            · rfl
            · rw [List.mem_singleton.mp hm]
              rfl
        rw [htable]
        exact hviewk
      exact hat.near hA (hwk.toNear.trans hΓ he6.still.toNear)
    have hpend6 : ∀ s, w6.release.sess.pend s = addRevocationTask
        { pk := n, user := user, eventKey := withdrawalEventKey user authEpoch,
          authEpoch := authEpoch, availableAt := availableAt } (w.sess.pend s) := fun s => by
      show w6.sess.pend s = _
      rw [he6.sess, hi.pend, hpend4]
    refine ⟨.added rfl rfl rfl rfl ⟨rfl, rfl, rfl, rfl, rfl⟩ (hsettled _ List.mem_cons_self)
      (hsettled _ (List.mem_cons_of_mem _ List.mem_cons_self)) fun s => ?_, _, hpend6⟩
    rw [hpend6]
    show (w.sess.pend s).revocationTasks ++ _ = _
    rw [hpend]

/-! ## The whole transaction -/

/-- What a withdrawal is about to commit. -/
structure Withdrawn (Γ : Ctx Store Lock Exn Obs) (u : User) (now : Time)
    (scope : WithdrawalScope) (favorites notifications : List Nat) (r : WithdrawalResult)
    (w : World Store Lock Obs) : Prop where
  row : u ∈ w.db.users
  active : u.withdrawnAt = none
  locked : ScopeLocked u.pk scope w.sess.held w.db
  taken : HoldingsTaken Γ u.pk favorites notifications w
  task : TaskEnd u.pk (u.authEpoch + 1) r.task r.created w.sess.held w.db w.sess.pend
  writes : WithdrawalWrites u now scope favorites notifications w.sess.pend

/-- What the call for a user that withdrew before returns. -/
structure Replayed (user : Nat) (r : WithdrawalResult) (w : World Store Lock Obs) : Prop where
  row : ∃ u ∈ w.db.users, u.pk = user ∧ u.withdrawnAt.isSome ∧
    r.task.user = user ∧ r.task.authEpoch = u.authEpoch
  task : r.task.identity ∈ w.db.revocationTasks.map RevocationTask.identity
  created : r.created = false
  pend : w.sess.pend = id

/-- The two ways `withdraw_account` ends. -/
inductive WithdrawalDone (Γ : Ctx Store Lock Exn Obs) (user : Nat) (r : WithdrawalResult)
    (w : World Store Lock Obs) : Prop where
  | replayed : .row .user user ∈ w.sess.held → Replayed user r w →
      WithdrawalDone Γ user r w
  | withdrawn (u : User) (now : Time) (scope : WithdrawalScope)
      (favorites notifications : List Nat) : u.pk = user →
      Withdrawn Γ u now scope favorites notifications r w → WithdrawalDone Γ user r w

/-- What a withdrawal has done is not undone by the others. -/
theorem WithdrawalDone.env {user : Nat} {r : WithdrawalResult} (hA : Abides p Γ)
    (h : WithdrawalDone Γ user r w) (he : Env Γ w w') : WithdrawalDone Γ user r w' := by
  have hn : Near Γ w w' := he.still.toNear
  cases h with
  | replayed hl h =>
      obtain ⟨u, hu, hpk, hw, htask, hepoch⟩ := h.row
      refine .replayed (hn.held hl) ⟨⟨u, ?_, hpk, hw, htask, hepoch⟩, ?_, h.created, ?_⟩
      · exact (hA.same hn hl).1 u hu hpk
      · refine hA.task_stays hn ?_ h.task
        rw [htask]
        exact hl
      · rw [he.sess]
        exact h.pend
  | withdrawn u now scope favorites notifications hpk h =>
      refine .withdrawn u now scope favorites notifications hpk ⟨?_, h.active,
        h.locked.near hA hn, h.taken.near hA.lawful hn, h.task.env hA h.locked.userLock he, ?_⟩
      · exact (hA.same hn h.locked.userLock).1 u h.row rfl
      · rw [he.sess]
        exact h.writes

theorem body_commitWithdrawal (hA : Abides p Γ) {u : User} {scope : WithdrawalScope}
    (hrow : u ∈ w.db.users) (hactive : u.withdrawnAt = none)
    (hscope : ScopeLocked u.pk scope w.sess.held w.db) (hpend : w.sess.pend = id)
    (hopen : w.sess.frames ≠ []) :
    Body Γ (commitWithdrawal u scope) w (fun r w' => ∃ now favorites notifications,
      Withdrawn Γ u now scope favorites notifications r w') anyError := by
  have hΓ := hA.lawful
  refine Body.look hΓ (look_currentTimestamp anyError_faults) fun now w1 h1 _ => ?_
  have hl1 : .row .user u.pk ∈ w1.sess.held := h1.held hscope.userLock
  refine Body.bind hΓ (body_clearHoldings hA scope now hl1 (h1.pend.trans hpend) ?_)
    fun _ w2 h2 ⟨favorites, notifications, htaken, hp2⟩ => ?_
  · rw [h1.frames]
    exact hopen
  refine Body.bind hΓ (body_closeWithdrawnAccount hA u scope.account now)
    fun _ w3 h3 hp3 => ?_
  refine Body.bind hΓ (body_updateRows hΓ anyError_faults fun held _ hlocks s =>
    hA.leave _ _ _ (respects_updateUser (fun _ _ => rfl) (hlocks _ List.mem_cons_self)))
    fun _ w4 h4 ⟨hp4, _⟩ => ?_
  -- the store under the writes so far, table by table
  have hbefore : ∀ s, ∃ metrics audits, w4.sess.pend s = setWithdrawn u now
      { closeIfOpen scope.account now { removeNotifications notifications
          (removeFavorites favorites (updateProducts (availableProducts u scope)
            (archive now now) s)) with productMetrics := metrics } with
        transferAudits := audits } := fun s => by
    obtain ⟨audits, ha⟩ := hp3 s
    refine ⟨(w2.sess.pend s).productMetrics, audits, ?_⟩
    rw [hp4]
    show setWithdrawn u now (w3.sess.pend s) = _
    rw [ha]
    exact congrArg (fun x => setWithdrawn u now
      { closeIfOpen scope.account now x with transferAudits := audits }) (hp2 s)
  have hl4 : .row .user u.pk ∈ w4.sess.held := h4.held (h3.held (h2.held hl1))
  have htasks : ∀ s, (w4.sess.pend s).revocationTasks = s.revocationTasks := fun s => by
    obtain ⟨metrics, audits, h⟩ := hbefore s
    rw [h, closeIfOpen]
    split <;> rfl
  refine Body.bind hΓ (body_revocationTask hA (u.authEpoch + 1) hl4 htasks ?_)
    fun row w5 h5 hrow => ?_
  · rw [h4.frames, h3.frames, h2.frames, h1.frames]
    exact hopen
  obtain ⟨task, created⟩ := row
  obtain ⟨htask, tasks, hp5⟩ := hrow
  refine Body.ret hΓ ⟨now, favorites, notifications, ?_⟩
  have hnear : Near Γ w w5 := ((h1.within hΓ).trans hΓ (h2.trans hΓ (h3.trans hΓ
    (h4.trans hΓ h5)))).toNear
  have hnear25 : Near Γ w2 w5 := (h3.trans hΓ (h4.trans hΓ h5)).toNear
  exact {
    row := (hA.same hnear hscope.userLock).1 u hrow rfl
    active := hactive
    locked := hscope.near hA hnear
    taken := htaken.near hΓ hnear25
    task := htask
    writes := {
      products := fun s => by
        obtain ⟨metrics, audits, h⟩ := hbefore s
        rw [hp5 s, h, closeIfOpen]
        split <;> rfl
      favorites := fun s => by
        obtain ⟨metrics, audits, h⟩ := hbefore s
        rw [hp5 s, h, closeIfOpen]
        split <;> rfl
      notifications := fun s => by
        obtain ⟨metrics, audits, h⟩ := hbefore s
        rw [hp5 s, h, closeIfOpen]
        split <;> rfl
      users := fun s => by
        obtain ⟨metrics, audits, h⟩ := hbefore s
        rw [hp5 s, h, closeIfOpen]
        split <;> rfl
      accounts := fun s => by
        obtain ⟨metrics, audits, h⟩ := hbefore s
        rw [hp5 s, h]
        simp only [closeIfOpen]
        split <;> rfl
      rest := fun s => by
        obtain ⟨metrics, audits, h⟩ := hbefore s
        rw [hp5 s, h, closeIfOpen]
        split <;> rfl } }

/-- **SPECIFICATION** of `withdraw_account`, up to its commit. -/
theorem body_withdrawAccount (hA : Abides p Γ) (user : Nat) (password : String)
    (hpend : w.sess.pend = id) (hopen : w.sess.frames ≠ []) :
    Body Γ (withdrawAccountBody user password) w
      (fun r w' => WithdrawalDone Γ user r w') anyError := by
  have hΓ := hA.lawful
  refine Body.look hΓ (look_getForUpdate hΓ anyError_faults _ _ _ _ trivial)
    fun u w1 h1 ⟨hrow, huser, hlock⟩ => ?_
  rw [beq_iff_eq] at huser
  have hpend1 : w1.sess.pend = id := h1.pend.trans hpend
  rw [view_of_id hpend1] at hrow
  cases hw : u.withdrawnAt with
  | some t =>
      rw [if_pos (by rfl)]
      refine Body.look hΓ (look_getRow hΓ anyError_faults _ _ trivial)
        fun task w2 h2 htask => Body.ret hΓ ?_
      have hpend2 : w2.sess.pend = id := h2.pend.trans hpend1
      have hfound := List.find?_some htask
      rw [Bool.and_eq_true, beq_iff_eq, beq_iff_eq] at hfound
      rw [view_of_id hpend2] at htask
      refine .replayed (by rw [← huser]; exact h2.held hlock) ⟨⟨u, ?_, huser, ?_, ?_, ?_⟩, ?_,
        rfl, hpend2⟩
      · exact (hA.same h2.toNear hlock).1 u hrow rfl
      · rw [hw]
        rfl
      · exact hfound.1.trans huser
      · exact hfound.2
      · exact List.mem_map_of_mem (List.mem_of_find?_eq_some htask)
  | none =>
      rw [if_neg (by decide)]
      refine Body.look hΓ (look_raiseIf hΓ fun _ => trivial) fun _ w2 h2 _ => ?_
      refine Body.look hΓ (look_withdrawalScope hA (h2.held hlock) (h2.pend.trans hpend1))
        fun scope w3 h3 hscope => ?_
      have h13 : Still Γ w1 w3 := h2.trans hΓ h3
      refine (body_commitWithdrawal hA ((hA.same h13.toNear hlock).1 u hrow rfl) hw hscope
        (h13.pend.trans hpend1) ?_).mono fun r w4 _ ⟨now, favorites, notifications, h⟩ =>
          .withdrawn u now scope favorites notifications huser h
      rw [h13.frames, h1.frames]
      exact hopen

/-- A new transaction has written nothing. -/
theorem begin_pend_id (hi : Idle w) (he : Env Γ w w') : w'.begin.sess.pend = id := by
  rw [World.begin_pend, he.sess]
  exact hi.pend

theorem begin_open (w : World Store Lock Obs) : w.begin.sess.frames ≠ [] := by
  rw [World.begin_frames]
  exact List.cons_ne_nil _ _

/-- The commits of a session are as they were when its transaction began. -/
theorem commits_transaction {w1 w2 : World Store Lock Obs} (he : Env Γ w w')
    (hw : Within Γ w'.begin w1) (he2 : Env Γ w1 w2) :
    commitsOf w2.sess.hist = commitsOf w.sess.hist := by
  rw [he2.sess, hw.commits, World.begin_hist, he.sess]

/-- **SPECIFICATION** of `withdraw_account`. -/
theorem wp_withdrawAccount (hA : Abides p Γ) (user : Nat) (password : String) (hi : Idle w)
    {Q : Except Exn WithdrawalResult → World Store Lock Obs → Prop}
    (hok : ∀ r w2, commitsOf w2.sess.hist = commitsOf w.sess.hist →
      Γ.leave w2.sess.held w2.db w2.view → WithdrawalDone Γ user r w2 →
      Γ.guar w2.sess.held w2.db w2.view ∧ Q (.ok r) w2.publish)
    (herr : ∀ e w3, Idle w3 → commitsOf w3.sess.hist = commitsOf w.sess.hist →
      Q (.error e) w3) :
    wp Γ (withdrawAccount user password) Q w := by
  refine wp_tryCatch (wp_transaction (F := anyError)
    (P := fun _ r w1 => WithdrawalDone Γ user r w1) hA.lawful hi (fun w' he => ?_)
    anyError_faults (fun e w3 _ hidle hc _ => ?_) ?_)
  · exact body_withdrawAccount hA user password (begin_pend_id hi he) (begin_open w')
  · show wp Γ _ Q w3
    split <;> exact herr _ w3 hidle hc
  · intro w' r w1 w2 he hw hdone he2 hleave
    exact ⟨fun _ => hok r w2 (commits_transaction he hw he2) hleave (hdone.env hA he2),
      fun _ _ => trivial⟩

/-- A context that may commit what a withdrawal commits. -/
theorem top_withdrawAccount_done (hA : Abides p Γ) (user : Nat) (password : String)
    (hguar : ∀ r w, Γ.leave w.sess.held w.db w.view → WithdrawalDone Γ user r w →
      Γ.guar w.sess.held w.db w.view) : Top Γ (withdrawAccount user password) :=
  fun _ hi => wp_withdrawAccount hA user password hi
    (fun r w2 _ hleave hdone => ⟨hguar r w2 hleave hdone, publish_idle w2⟩)
    fun _ _ hidle _ => hidle

end Market
