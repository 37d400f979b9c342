import Mathlib.Data.List.Dedup
import Marketplace.Accounts
import Marketplace.CallRules

/-! # A withdrawal that runs alone

    `withdraw_account` step by step: it either raises, and leaves nothing, or returns
    with the account closed when it was open.  `WithdrawalReady` collects what the
    second takes. -/

namespace Market

open TxnProgram TxnRuns

variable {d : Store → Store → Option Exn} {ids ids' : Nat → Nat} {s : Store}
  {now start : Time}

/-- Nothing changed but what a withdrawal may change before the account. -/
structure SideWrites (s s' : Store) : Prop where
  accounts : s'.accounts = s.accounts
  tasks : s'.revocationTasks = s.revocationTasks
  products : s'.products.map (·.pk) = s.products.map (·.pk)
  journals : s'.journals = s.journals
  entries : s'.entries = s.entries

theorem SideWrites.refl (s : Store) : SideWrites s s := ⟨rfl, rfl, rfl, rfl, rfl⟩

theorem SideWrites.trans {s s' s'' : Store} (h : SideWrites s s')
    (h' : SideWrites s' s'') : SideWrites s s'' where
  accounts := h'.accounts.trans h.accounts
  tasks := h'.tasks.trans h.tasks
  products := h'.products.trans h.products
  journals := h'.journals.trans h.journals
  entries := h'.entries.trans h.entries

/-- A program that ends with an error. -/
def Fails {α : Type} (d : Store → Store → Option Exn) (m : M α) (ids : Nat → Nat)
    (s : Store) (now start : Time) : Prop :=
  ∃ e ids' g, Ends d m ids s now start (.error e) ids' g

/-- A program that returns, with side writes only. -/
def ReturnsBeside {α : Type} (d : Store → Store → Option Exn) (m : M α)
    (ids : Nat → Nat) (s : Store) (now start : Time) : Prop :=
  ∃ a g, Ends d m ids s now start (.ok a) ids g ∧ SideWrites s (g s)

/-- A step that fails makes what follows it fail. -/
theorem Fails.bind {α β : Type} {m : M α} {f : α → M β}
    (h : Fails d m ids s now start) : Fails d (m >>= f) ids s now start := by
  obtain ⟨e, ids', g, h⟩ := h
  exact ⟨e, ids', g, Ends.bindError h⟩

/-- What follows a step fails, so both fail. -/
theorem Fails.after {α β : Type} {m : M α} {f : α → M β} {a : α} {g : Store → Store}
    (hm : Ends d m ids s now start (.ok a) ids' g)
    (h : Fails d (f a) ids' (g s) now start) : Fails d (m >>= f) ids s now start := by
  obtain ⟨e, ids'', g', h⟩ := h
  exact ⟨e, ids'', _, Ends.bind hm h⟩

/-! ## Metrics -/

/-- The product is there. -/
def HasProduct (product : Nat) (s : Store) : Prop := product ∈ s.products.map (·.pk)

/-- The metric row is found, or is counted anew: nothing is written. -/
theorem ends_metricCounts (ids : Nat → Nat) (s : Store) (now start : Time)
    (product : Nat) :
    ∃ m, Ends d (metricCounts product) ids s now start (.ok m) ids id :=
  ⟨_, Ends.look (ends_fetch _) (Ends.look (ends_fetch _) (Ends.look (ends_fetch _)
    (Ends.look (ends_fetch _) (Ends.ret _))))⟩

/-- A product that is there is found by its key. -/
theorem find_of_hasProduct {product : Nat} (h : HasProduct product s) :
    ∃ r, s.products.find? (·.pk == product) = some r ∧ r.pk = product := by
  obtain ⟨x, hx, hpk⟩ := List.mem_map.mp h
  cases hfind : s.products.find? (·.pk == product) with
  | some r =>
      have hr := List.find?_some hfind
      exact ⟨r, rfl, eq_of_beq hr⟩
  | none =>
      have hnone := List.find?_eq_none.mp hfind x hx
      exact absurd (beq_iff_eq.mpr hpk) hnone

/-- The count of a product that exists writes its metric row only. -/
theorem ends_recomputeProductMetric {product : Nat} (h : HasProduct product s) :
    ReturnsBeside d (recomputeProductMetric product) ids s now start := by
  obtain ⟨r, hfind, rfl⟩ := find_of_hasProduct h
  obtain ⟨m, hm⟩ := ends_metricCounts (d := d) ids s now start r.pk
  have hmetric : Ends d (firstForUpdate .productMetric (·.productMetrics) (·.product)
      (·.product == r.pk)) ids s now start
      (.ok (s.productMetrics.find? (·.product == r.pk))) ids id :=
    ends_firstForUpdate _ _ _ _
  cases hold : s.productMetrics.find? (·.product == r.pk) with
  | some old =>
      rw [hold] at hmetric
      refine ⟨m, setMetric m, ?_, ⟨rfl, rfl, rfl, rfl, rfl⟩⟩
      refine Ends.savepoint (Ends.look (ends_getForUpdate hfind) (Ends.look hm
        (Ends.savepoint (Ends.look (ends_getOrCreate_found hmetric) ?_))))
      exact Ends.bindLook (ends_updateRows _ _ _) (Ends.ret m)
  | none =>
      rw [hold] at hmetric
      refine ⟨m, addMetric m, ?_, ⟨rfl, rfl, rfl, rfl, rfl⟩⟩
      refine Ends.savepoint (Ends.look (ends_getForUpdate hfind) (Ends.look hm
        (Ends.savepoint (Ends.bindLook (ends_getOrCreate_created (r := m) hmetric
          (Ends.bindLook (ends_insertRow _ ?_) (Ends.ret m))) (Ends.ret m)))))
      intro i hi
      rw [List.mem_singleton] at hi
      rw [hi]
      refine Bool.eq_false_iff.mpr fun hp => ?_
      obtain ⟨x, hx, hpk⟩ := List.any_eq_true.mp hp
      exact List.find?_eq_none.mp hold x hx hpk

/-- A product that does not exist has no row to lock. -/
theorem fails_recomputeProductMetric {product : Nat} (h : ¬ HasProduct product s) :
    Fails d (recomputeProductMetric product) ids s now start := by
  have hfind : s.products.find? (·.pk == product) = none := by
    refine List.find?_eq_none.mpr fun r hr hpk => h ?_
    exact List.mem_map.mpr ⟨r, hr, eq_of_beq hpk⟩
  exact ⟨_, _, _, Ends.savepointError (Ends.bindError (ends_getForUpdate_none hfind))⟩

/-- The side writes keep the products that are there. -/
theorem SideWrites.hasProduct {product : Nat} {s' : Store} (h : SideWrites s s') :
    HasProduct product s' ↔ HasProduct product s := by
  rw [HasProduct, HasProduct, h.products]

/-- All of the products are counted, one after the other. -/
theorem ends_recomputeMetrics :
    ∀ {products : List Nat} {s : Store}, (∀ n ∈ products, HasProduct n s) →
      ReturnsBeside d (recomputeMetrics products) ids s now start := by
  intro products
  induction products with
  | nil => exact fun _ => ⟨(), id, Ends.ret _, SideWrites.refl _⟩
  | cons n products ih =>
      intro s h
      have hfirst : ReturnsBeside d (recomputeProductMetric n) ids s now start :=
        ends_recomputeProductMetric (h n List.mem_cons_self)
      obtain ⟨m, g, hm, hg⟩ := hfirst
      obtain ⟨_, g', hrest, hg'⟩ := ih (s := g s) fun x hx =>
        hg.hasProduct.mpr (h x (List.mem_cons_of_mem _ hx))
      exact ⟨(), _, Ends.bind hm hrest, hg.trans hg'⟩

/-- One product that is missing fails the loop, whatever was counted before. -/
theorem fails_recomputeMetrics :
    ∀ {products : List Nat} {s : Store}, (¬ ∀ n ∈ products, HasProduct n s) →
      Fails d (recomputeMetrics products) ids s now start := by
  intro products
  induction products with
  | nil => exact fun h => absurd (fun _ hx => nomatch hx) h
  | cons n products ih =>
      intro s h
      by_cases hn : HasProduct n s
      · have hfirst : ReturnsBeside d (recomputeProductMetric n) ids s now start :=
          ends_recomputeProductMetric hn
        obtain ⟨m, g, hm, hg⟩ := hfirst
        refine Fails.after hm (ih fun hrest => h fun x hx => ?_)
        rcases List.mem_cons.mp hx with rfl | hx
        · exact hn
        · exact hg.hasProduct.mp (hrest x hx)
      · exact (fails_recomputeProductMetric hn).bind

/-! ## The checks -/

/-- The checks of `withdraw_account` after the user's own, and the account they find. -/
structure ScopeReady (u : User) (s : Store) (a : MockAccount) : Prop where
  noReserved : ∀ t ∈ s.trades, t.seller = u.pk ∨ t.buyer = some u.pk →
    t.status ≠ .reserved
  account : s.accounts.find? (·.user == u.pk) = some a
  ledger : ∃ l ∈ s.ledgerAccounts, l.mockAccount = some a.pk
  empty : a.balance = 0

/-- Touching the retained tables has no effect. -/
theorem ends_assertRetentionAuthoritiesAvailable :
    Ends d assertRetentionAuthoritiesAvailable ids s now start (.ok ()) ids id :=
  Ends.look (ends_fetch _) (Ends.look (ends_fetch _) (Ends.look (ends_fetch _)
    (Ends.look (ends_fetch _) (Ends.look (ends_fetch _) (Ends.look (ends_fetch _)
      (Ends.look (ends_fetch _) (Ends.look (ends_fetch _) (Ends.ret _))))))))

/-- An account with its ledger account is locked. -/
theorem ends_lockMockAccount {user : Nat} {a : MockAccount}
    (ha : s.accounts.find? (·.user == user) = some a)
    (hl : ∃ l ∈ s.ledgerAccounts, l.mockAccount = some a.pk) :
    Ends d (lockMockAccount user) ids s now start (.ok a) ids id := by
  refine Ends.tryOk (Ends.look (ends_getForUpdate ha) ?_)
  cases hfind : s.ledgerAccounts.find? (·.mockAccount == some a.pk) with
  | some l => exact Ends.look (ends_getForUpdate hfind) (Ends.ret a)
  | none =>
      obtain ⟨l, hl, hof⟩ := hl
      exact absurd (beq_iff_eq.mpr hof) (List.find?_eq_none.mp hfind l hl)

/-- Without the account or its ledger account the authority is not there. -/
theorem fails_lockMockAccount {user : Nat}
    (h : ¬ ∃ a, s.accounts.find? (·.user == user) = some a ∧
      ∃ l ∈ s.ledgerAccounts, l.mockAccount = some a.pk) :
    Fails d (lockMockAccount user) ids s now start := by
  cases ha : s.accounts.find? (·.user == user) with
  | none =>
      exact ⟨_, _, _, Ends.tryError (e := .doesNotExist .mockAccount)
        (Ends.bindError (ends_getForUpdate_none ha)) (Ends.raise _)⟩
  | some a =>
      cases hfind : s.ledgerAccounts.find? (·.mockAccount == some a.pk) with
      | none =>
          exact ⟨_, _, _, Ends.tryError (e := .doesNotExist .ledgerAccount)
            (Ends.look (ends_getForUpdate ha) (Ends.bindError
              (ends_getForUpdate_none hfind))) (Ends.raise _)⟩
      | some l =>
          have hof := List.find?_some hfind
          exact absurd ⟨a, ha, l, List.mem_of_find?_eq_some hfind, eq_of_beq hof⟩ h

/-- No trade of the user is reserved, so the check passes. -/
theorem tradesReserved_false {u : User}
    (h : ∀ t ∈ s.trades, t.seller = u.pk ∨ t.buyer = some u.pk → t.status ≠ .reserved) :
    ((s.trades.filter fun t => t.seller == u.pk || t.buyer == some u.pk).any
      (·.status == .reserved)) = false := by
  rw [List.any_eq_false]
  intro t ht hr
  rw [List.mem_filter, Bool.or_eq_true, beq_iff_eq, beq_iff_eq] at ht
  exact h t ht.1 ht.2 (eq_of_beq hr)

/-- Where the user may withdraw, the checks pass and find the holdings. -/
theorem ends_withdrawalScope (ids : Nat → Nat) (now start : Time) {u : User} {a : MockAccount}
    (h : ScopeReady u s a) :
    ∃ scope, Ends d (withdrawalScope u) ids s now start (.ok scope) ids id ∧
      scope.account = a ∧
      scope.favoriteProducts = (s.favorites.filter (·.user == u.pk)).map (·.product) := by
  refine ⟨_, Ends.look (ends_fetch _) (Ends.look (ends_fetch _) (Ends.look (ends_fetch _)
    (Ends.look (ends_selectForUpdate _ _ _ _) (Ends.look (ends_selectForUpdate _ _ _ _)
      (Ends.look (Ends.raiseIf_false (tradesReserved_false h.noReserved))
        (Ends.look (ends_lockMockAccount h.account h.ledger)
          (Ends.look (Ends.raiseIf_false ?_) (Ends.look (ends_selectForUpdate _ _ _ _)
            (Ends.look (ends_selectForUpdate _ _ _ _)
              (Ends.look ends_assertRetentionAuthoritiesAvailable
                (Ends.ret _))))))))))), rfl, rfl⟩
  rw [h.empty]
  rfl

/-- Where the user may not, one of the checks fails. -/
theorem fails_withdrawalScope {u : User} (h : ¬ ∃ a, ScopeReady u s a) :
    Fails d (withdrawalScope u) ids s now start := by
  refine Fails.after (ends_fetch _) (Fails.after (ends_fetch _) (Fails.after (ends_fetch _)
    (Fails.after (ends_selectForUpdate _ _ _ _)
      (Fails.after (ends_selectForUpdate _ _ _ _) ?_))))
  by_cases hres : ∀ t ∈ s.trades, t.seller = u.pk ∨ t.buyer = some u.pk →
      t.status ≠ .reserved
  · refine Fails.after (Ends.raiseIf_false (tradesReserved_false hres)) ?_
    by_cases hacc : ∃ a, s.accounts.find? (·.user == u.pk) = some a ∧
        ∃ l ∈ s.ledgerAccounts, l.mockAccount = some a.pk
    · obtain ⟨a, ha, hl⟩ := hacc
      refine Fails.after (ends_lockMockAccount ha hl) (Fails.bind
        ⟨_, _, _, Ends.raiseIf_true ?_⟩)
      exact bne_iff_ne.mpr fun hempty => h ⟨a, hres, ha, hl, hempty⟩
    · exact (fails_lockMockAccount hacc).bind
  · refine Fails.bind ⟨_, _, _, Ends.raiseIf_true ?_⟩
    refine Bool.not_eq_false _ |>.mp fun hfalse => hres fun t ht hparty hr => ?_
    rw [List.any_eq_false] at hfalse
    refine hfalse t ?_ (beq_iff_eq.mpr hr)
    rw [id, List.mem_filter, Bool.or_eq_true, beq_iff_eq, beq_iff_eq]
    exact ⟨ht, hparty⟩

/-! ## The writes -/

/-- The clock of a transaction is that of its start. -/
theorem ends_currentTimestamp :
    Ends d currentTimestamp ids s now start (.ok start) ids id := Ends.select _

/-- Products keep their keys when they are archived. -/
theorem sideWrites_archive (pks : List Nat) (f : Product → Product)
    (hf : ∀ r, (f r).pk = r.pk) : SideWrites s (updateProducts pks f s) := by
  refine ⟨rfl, rfl, ?_, rfl, rfl⟩
  show (s.products.map fun r => if pks.contains r.pk then f r else r).map (·.pk) = _
  rw [List.map_map]
  refine List.map_congr_left fun r _ => ?_
  show (if pks.contains r.pk = true then f r else r).pk = r.pk
  split
  · exact hf r
  · rfl

/-- Archiving writes products only, and nothing at all if none is available. -/
theorem ends_archiveAvailable (u : User) (scope : WithdrawalScope) (at' : Time) :
    ReturnsBeside d (archiveAvailable u scope at') ids s now start := by
  by_cases h : (availableProducts u scope).isEmpty = true
  · refine ⟨(), id, ?_, SideWrites.refl s⟩
    rw [archiveAvailable, if_pos h]
    exact Ends.ret ()
  · refine ⟨(), _, ?_, sideWrites_archive (availableProducts u scope) (archive at' at')
      fun _ => rfl⟩
    rw [archiveAvailable, if_neg h]
    exact ends_updateRows _ _ _

/-- The account, closed when it is open. -/
def closeIfOpen (a : MockAccount) (at' : Time) (s : Store) : Store :=
  if a.isOpen then setClosed a.pk at' s else s

/-- The account is closed, and the ledger stays as it was. -/
theorem ends_closeWithdrawnAccount (ids : Nat → Nat) (now start : Time) (u : User)
    (a : MockAccount) (at' : Time) :
    ∃ g, Ends d (closeWithdrawnAccount u a at') ids s now start (.ok ()) ids g ∧
      (g s).accounts = (closeIfOpen a at' s).accounts ∧
      (g s).revocationTasks = s.revocationTasks ∧
      (g s).journals = s.journals ∧ (g s).entries = s.entries := by
  cases hopen : a.isOpen with
  | true =>
      refine ⟨fun s => addTransferAudit { actor := u.pk, eventType := "ACCOUNT_CLOSED" }
        (setClosed a.pk at' s), ?_, ?_, rfl, rfl, rfl⟩
      · rw [closeWithdrawnAccount, hopen, if_pos rfl]
        exact Ends.bind (ends_updateRows _ _ _) (ends_insertRow _ fun _ hi => nomatch hi)
      · rw [closeIfOpen, hopen, if_pos rfl]
        rfl
  | false =>
      refine ⟨id, ?_, ?_, rfl, rfl, rfl⟩
      · rw [closeWithdrawnAccount, hopen, if_neg Bool.false_ne_true]
        exact Ends.ret ()
      · rw [closeIfOpen, hopen, if_neg Bool.false_ne_true]
        rfl

/-- The revocation task of the withdrawal is there, or can be stored under `n`. -/
def TaskReady (user authEpoch n : Nat) (s : Store) : Prop :=
  (∃ t ∈ s.revocationTasks, t.user = user ∧ t.authEpoch = authEpoch) ∨
    ∀ t ∈ s.revocationTasks, t.pk ≠ n ∧ t.eventKey ≠ withdrawalEventKey user authEpoch

/-- A task of the epoch that is there is found. -/
theorem find_task {user authEpoch : Nat}
    (h : ∃ t ∈ s.revocationTasks, t.user = user ∧ t.authEpoch = authEpoch) :
    ∃ t, (s.revocationTasks.find? fun t => t.user == user && t.authEpoch == authEpoch) =
      some t := by
  obtain ⟨t, ht, hu, he⟩ := h
  cases hfind : s.revocationTasks.find? fun t =>
      t.user == user && t.authEpoch == authEpoch with
  | some x => exact ⟨x, rfl⟩
  | none =>
      have hn := List.find?_eq_none.mp hfind t ht
      rw [hu, he, beq_self_eq_true, beq_self_eq_true] at hn
      exact absurd rfl hn

/-- The task of the epoch is found or inserted. -/
theorem ends_revocationTask (ids : Nat → Nat) (now start : Time) {user authEpoch : Nat}
    (h : TaskReady user authEpoch (ids 0) s) :
    ∃ r ids' g, Ends d (revocationTask user authEpoch) ids s now start (.ok r) ids' g ∧
      (g s).accounts = s.accounts ∧ (g s).journals = s.journals ∧
      (g s).entries = s.entries := by
  by_cases hthere : ∃ t ∈ s.revocationTasks, t.user = user ∧ t.authEpoch = authEpoch
  · obtain ⟨t, ht⟩ := find_task hthere
    have hfind : Ends d (fetch fun s => s.revocationTasks.find? fun t =>
        t.user == user && t.authEpoch == authEpoch) ids s now start (.ok (some t)) ids id := by
      rw [← ht]
      exact ends_fetch _
    exact ⟨_, _, _, ends_getOrCreate_found hfind, rfl, rfl, rfl⟩
  · have hnone : (s.revocationTasks.find? fun t =>
        t.user == user && t.authEpoch == authEpoch) = none := by
      refine List.find?_eq_none.mpr fun t ht hp => hthere ⟨t, ht, ?_⟩
      rw [Bool.and_eq_true, beq_iff_eq, beq_iff_eq] at hp
      exact hp
    have hfind : Ends d (fetch fun s => s.revocationTasks.find? fun t =>
        t.user == user && t.authEpoch == authEpoch) ids s now start (.ok none) ids id := by
      rw [← hnone]
      exact ends_fetch _
    refine ⟨_, _, _, ends_getOrCreate_created hfind (Ends.look Ends.fresh
      (Ends.look Ends.fresh (Ends.bindLook (ends_insertRow _ ?_) (Ends.ret _)))),
      rfl, rfl, rfl⟩
    intro i hi
    refine Bool.eq_false_iff.mpr fun hp => ?_
    rcases List.mem_cons.mp hi with rfl | hi
    · obtain ⟨t, ht, hpk⟩ := List.any_eq_true.mp hp
      exact ((h.resolve_left hthere) t ht).1 (eq_of_beq hpk)
    · rcases List.mem_cons.mp hi with rfl | hi
      · obtain ⟨t, ht, hq⟩ := List.any_eq_true.mp hp
        rw [Bool.and_eq_true, beq_iff_eq, beq_iff_eq] at hq
        exact hthere ⟨t, ht, hq⟩
      · rw [List.mem_singleton.mp hi] at hp
        obtain ⟨t, ht, hq⟩ := List.any_eq_true.mp hp
        exact ((h.resolve_left hthere) t ht).2 (eq_of_beq hq)

/-- A task of another epoch with the key is an integrity error. -/
theorem fails_revocationTask {user authEpoch : Nat}
    (h : ¬ TaskReady user authEpoch (ids 0) s) :
    Fails d (revocationTask user authEpoch) ids s now start := by
  have hthere : ¬ ∃ t ∈ s.revocationTasks, t.user = user ∧ t.authEpoch = authEpoch :=
    fun ht => h (Or.inl ht)
  have htaken : ∃ i ∈ [Index.pk .revocationTask (ids 0),
      .revocationUserEpoch user authEpoch,
      .revocationEventKey (withdrawalEventKey user authEpoch)], i.present s = true := by
    by_contra hn
    refine h (Or.inr fun t ht => ⟨fun hpk => hn ?_, fun hkey => hn ?_⟩)
    · exact ⟨_, List.mem_cons_self, List.any_eq_true.mpr ⟨t, ht, beq_iff_eq.mpr hpk⟩⟩
    · exact ⟨_, List.mem_cons_of_mem _ (List.mem_cons_of_mem _ List.mem_cons_self),
        List.any_eq_true.mpr ⟨t, ht, beq_iff_eq.mpr hkey⟩⟩
  have hnone : (s.revocationTasks.find? fun t =>
      t.user == user && t.authEpoch == authEpoch) = none := by
    refine List.find?_eq_none.mpr fun t ht hp => hthere ⟨t, ht, ?_⟩
    rw [Bool.and_eq_true, beq_iff_eq, beq_iff_eq] at hp
    exact hp
  have hfind : ∀ ids, Ends d (fetch fun s => s.revocationTasks.find? fun t =>
      t.user == user && t.authEpoch == authEpoch) ids s now start (.ok none) ids id := by
    intro ids
    rw [← hnone]
    exact ends_fetch _
  obtain ⟨i, hi, hpresent⟩ := htaken
  exact ⟨_, _, _, Ends.look (hfind ids) (Ends.tryError (e := .integrityError)
    (Ends.bindError (Ends.savepointError (Ends.look Ends.fresh (Ends.look Ends.fresh
      (Ends.bindError (ends_insertRow_taken _ hi hpresent))))))
    (Ends.look (hfind _) (Ends.raise _)))⟩

/-- The sorted favorites all exist exactly when the favorites do. -/
theorem mem_favoriteOrder {scope : WithdrawalScope} {u : User}
    (hfav : scope.favoriteProducts = (s.favorites.filter (·.user == u.pk)).map (·.product)) :
    (∀ n ∈ scope.favoriteProducts.dedup.insertionSort (· ≤ ·), HasProduct n s) ↔
      ∀ f ∈ s.favorites, f.user = u.pk → HasProduct f.product s := by
  constructor
  · intro h f hf hu
    refine h f.product ?_
    rw [List.mem_insertionSort, List.mem_dedup, hfav, List.mem_map]
    exact ⟨f, List.mem_filter.mpr ⟨hf, beq_iff_eq.mpr hu⟩, rfl⟩
  · intro h n hn
    rw [List.mem_insertionSort, List.mem_dedup, hfav, List.mem_map] at hn
    obtain ⟨f, hf, rfl⟩ := hn
    rw [List.mem_filter, beq_iff_eq] at hf
    exact h f hf.1 hf.2

/-- The favorites go, their products are counted again, and notices go. -/
theorem ends_clearHoldings {u : User} {scope : WithdrawalScope} (at' : Time)
    (hfav : scope.favoriteProducts = (s.favorites.filter (·.user == u.pk)).map (·.product))
    (hready : ∀ f ∈ s.favorites, f.user = u.pk → HasProduct f.product s) :
    ReturnsBeside d (clearHoldings u scope at') ids s now start := by
  have harchive : ReturnsBeside d (archiveAvailable u scope at') ids s now start :=
    ends_archiveAvailable u scope at'
  obtain ⟨_, g1, h1, hg1⟩ := harchive
  have hg2 : SideWrites s (removeFavorites
      (((g1 s).favorites.filter (·.user == u.pk)).map (·.pk)) (g1 s)) :=
    hg1.trans ⟨rfl, rfl, rfl, rfl, rfl⟩
  have hmetrics : ReturnsBeside d
      (recomputeMetrics (scope.favoriteProducts.dedup.insertionSort (· ≤ ·))) ids
      (removeFavorites (((g1 s).favorites.filter (·.user == u.pk)).map (·.pk)) (g1 s))
      now start := by
    refine ends_recomputeMetrics fun n hn => hg2.hasProduct.mpr ?_
    exact (mem_favoriteOrder hfav).mpr hready n hn
  obtain ⟨_, g3, h3, hg3⟩ := hmetrics
  refine ⟨(), _, Ends.bind h1 (Ends.bind (ends_deleteRows _ _ _ _ _)
    (Ends.bind h3 (ends_deleteRows _ _ _ _ _))), ?_⟩
  exact hg2.trans (hg3.trans (SideWrites.mk rfl rfl rfl rfl rfl))

/-- A favorite of a product that is missing stops the clearing. -/
theorem fails_clearHoldings {u : User} {scope : WithdrawalScope} (at' : Time)
    (hfav : scope.favoriteProducts = (s.favorites.filter (·.user == u.pk)).map (·.product))
    (hready : ¬ ∀ f ∈ s.favorites, f.user = u.pk → HasProduct f.product s) :
    Fails d (clearHoldings u scope at') ids s now start := by
  have harchive : ReturnsBeside d (archiveAvailable u scope at') ids s now start :=
    ends_archiveAvailable u scope at'
  obtain ⟨_, g1, h1, hg1⟩ := harchive
  have hg2 : SideWrites s (removeFavorites
      (((g1 s).favorites.filter (·.user == u.pk)).map (·.pk)) (g1 s)) :=
    hg1.trans ⟨rfl, rfl, rfl, rfl, rfl⟩
  refine Fails.after h1 (Fails.after (ends_deleteRows _ _ _ _ _)
    (Fails.bind (fails_recomputeMetrics fun h => hready ?_)))
  exact (mem_favoriteOrder hfav).mp fun n hn => hg2.hasProduct.mp (h n hn)

/-- What the writes of a withdrawal need: the products of the favorites, and the task. -/
structure CommitReady (u : User) (n : Nat) (s : Store) : Prop where
  favorites : ∀ f ∈ s.favorites, f.user = u.pk → HasProduct f.product s
  task : TaskReady u.pk (u.authEpoch + 1) n s

/-- Whether the task can be had is a matter of the table of tasks. -/
theorem TaskReady.congr {user authEpoch n : Nat} {s' : Store}
    (h : s'.revocationTasks = s.revocationTasks) :
    TaskReady user authEpoch n s' ↔ TaskReady user authEpoch n s := by
  rw [TaskReady, TaskReady, h]

/-- What closing makes of the accounts is a matter of the accounts. -/
theorem closeIfOpen_accounts {a : MockAccount} {at' : Time} {s' : Store}
    (h : s'.accounts = s.accounts) :
    (closeIfOpen a at' s').accounts = (closeIfOpen a at' s).accounts := by
  rw [closeIfOpen, closeIfOpen]
  split
  · exact congrArg (List.map _) h
  · exact h

/-- Where all of its parts can be done, the withdrawal is. -/
theorem ends_commitWithdrawal (ids : Nat → Nat) (now start : Time) {u : User}
    {scope : WithdrawalScope}
    (hfav : scope.favoriteProducts = (s.favorites.filter (·.user == u.pk)).map (·.product))
    (h : CommitReady u (ids 0) s) :
    ∃ (r : WithdrawalResult) (ids' : Nat → Nat) (g : Store → Store),
      Ends d (commitWithdrawal u scope) ids s now start (.ok r) ids' g ∧
      (g s).accounts = (closeIfOpen scope.account start s).accounts ∧
      (g s).journals = s.journals ∧ (g s).entries = s.entries := by
  have hclear : ReturnsBeside d (clearHoldings u scope start) ids s now start :=
    ends_clearHoldings start hfav h.favorites
  obtain ⟨_, g1, h1, hg1⟩ := hclear
  obtain ⟨g2, h2, haccounts, htasks, hjournals, hentries⟩ :=
    ends_closeWithdrawnAccount (d := d) (s := g1 s) ids now start u scope.account start
  have hsame : (setWithdrawn u start (g2 (g1 s))).revocationTasks = s.revocationTasks :=
    htasks.trans hg1.tasks
  obtain ⟨⟨task, created⟩, ids', g3, h3, haccounts', hjournals', hentries'⟩ :=
    ends_revocationTask (d := d) ids now start
      ((TaskReady.congr hsame).mpr h.task)
  refine ⟨⟨task, created⟩, ids', _, Ends.look ends_currentTimestamp (Ends.bind h1
    (Ends.bind h2 (Ends.bind (ends_updateRows _ _ _) (Ends.bindLook h3 (Ends.ret _))))), ?_, ?_, ?_⟩
  · exact haccounts'.trans (haccounts.trans (closeIfOpen_accounts hg1.accounts))
  · exact hjournals'.trans (hjournals.trans hg1.journals)
  · exact hentries'.trans (hentries.trans hg1.entries)

/-- Where one of its parts cannot, the withdrawal fails. -/
theorem fails_commitWithdrawal {u : User} {scope : WithdrawalScope}
    (hfav : scope.favoriteProducts = (s.favorites.filter (·.user == u.pk)).map (·.product))
    (h : ¬ CommitReady u (ids 0) s) :
    Fails d (commitWithdrawal u scope) ids s now start := by
  refine Fails.after ends_currentTimestamp ?_
  by_cases hready : ∀ f ∈ s.favorites, f.user = u.pk → HasProduct f.product s
  · have hclear : ReturnsBeside d (clearHoldings u scope start) ids s now start :=
      ends_clearHoldings start hfav hready
    obtain ⟨_, g1, h1, hg1⟩ := hclear
    obtain ⟨g2, h2, -, htasks, -, -⟩ :=
      ends_closeWithdrawnAccount (d := d) (s := g1 s) ids now start u scope.account start
    have hsame : (setWithdrawn u start (g2 (g1 s))).revocationTasks = s.revocationTasks :=
      htasks.trans hg1.tasks
    refine Fails.after h1 (Fails.after h2 (Fails.after (ends_updateRows _ _ _)
      (Fails.bind (fails_revocationTask fun htask => h ⟨hready, ?_⟩))))
    exact (TaskReady.congr hsame).mp htask
  · exact (fails_clearHoldings start hfav hready).bind

/-! ## The whole withdrawal -/

/-- What it takes for a withdrawal to go through: the password of an active user, the
    checks of the authorities, and what the writes need, `n` being the identifier made
    up for the task. -/
structure WithdrawalReady (user : Nat) (password : String) (n : Nat) (s : Store) (u : User)
    (a : MockAccount) : Prop where
  row : s.users.find? (·.pk == user) = some u
  notWithdrawn : u.withdrawnAt = none
  active : u.isActive = true
  typed : password.isEmpty = false
  password : u.password = some password
  scope : ScopeReady u s a
  commit : CommitReady u n s

/-- **SPECIFICATION** of the transaction, run alone: it ends well where it is ready. -/
theorem ends_withdrawAccountBody (ids : Nat → Nat) (now start : Time) {user : Nat}
    {password : String} {u : User}
    {a : MockAccount} (h : WithdrawalReady user password (ids 0) s u a) :
    ∃ (r : WithdrawalResult) (ids' : Nat → Nat) (g : Store → Store),
      Ends d (withdrawAccountBody user password) ids s now start (.ok r) ids' g ∧
      (g s).accounts = (closeIfOpen a start s).accounts ∧
      (g s).journals = s.journals ∧ (g s).entries = s.entries := by
  have hends := ends_withdrawalScope (d := d) ids now start
    h.scope
  obtain ⟨scope, hscope, rfl, hfav⟩ := hends
  obtain ⟨r, ids', g, hcommit, hg⟩ := ends_commitWithdrawal (d := d) ids now start hfav h.commit
  refine ⟨r, ids', g, Ends.look (ends_getForUpdate h.row) ?_, hg⟩
  rw [h.notWithdrawn, if_neg (by decide)]
  refine Ends.look (Ends.raiseIf_false ?_) (Ends.look hscope hcommit)
  rw [h.active, h.typed, h.password, bne_self_eq_false]
  rfl

/-- Without all that, it raises, or answers with the withdrawal of before. -/
theorem withdrawAccountBody_else (ids : Nat → Nat) (now start : Time) {user : Nat}
    {password : String}
    (h : ¬ ∃ u a, WithdrawalReady user password (ids 0) s u a) :
    Fails d (withdrawAccountBody user password) ids s now start ∨
      ∃ r, Ends d (withdrawAccountBody user password) ids s now start (.ok r) ids id := by
  cases hrow : s.users.find? (·.pk == user) with
  | none => exact Or.inl ⟨_, _, _, Ends.bindError (ends_getForUpdate_none hrow)⟩
  | some u =>
      by_cases hw : u.withdrawnAt.isSome = true
      · cases htask : s.revocationTasks.find? fun t =>
            t.user == u.pk && t.authEpoch == u.authEpoch with
        | none =>
            refine Or.inl (Fails.after (ends_getForUpdate hrow) ?_)
            rw [if_pos hw]
            exact ⟨_, _, _, Ends.bindError (ends_getRow_none htask)⟩
        | some task =>
            refine Or.inr ⟨⟨task, false⟩, Ends.look (ends_getForUpdate hrow) ?_⟩
            rw [if_pos hw]
            exact Ends.look (ends_getRow htask) (Ends.ret _)
      · refine Or.inl (Fails.after (ends_getForUpdate hrow) ?_)
        rw [if_neg hw]
        cases hbad : !u.isActive || password.isEmpty || u.password != some password with
        | true => exact Fails.bind ⟨_, _, _, Ends.raiseIf_true rfl⟩
        | false =>
            refine Fails.after (Ends.raiseIf_false rfl) ?_
            rw [Bool.or_eq_false_iff, Bool.or_eq_false_iff] at hbad
            by_cases hscope : ∃ a, ScopeReady u s a
            · obtain ⟨a, hscope⟩ := hscope
              have hends := ends_withdrawalScope (d := d) ids now start hscope
              obtain ⟨scope, hends, rfl, hfav⟩ := hends
              refine Fails.after hends (fails_commitWithdrawal hfav fun hcommit => h ?_)
              refine ⟨u, scope.account, hrow, ?_, ?_, hbad.1.2, ?_, hscope, hcommit⟩
              · exact Option.not_isSome_iff_eq_none.mp hw
              · exact (Bool.not_eq_false' _).mp hbad.1.1
              · exact bne_eq_false_iff_eq.mp hbad.2
            · exact (fails_withdrawalScope hscope).bind

end Market
