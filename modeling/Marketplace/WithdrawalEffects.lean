import Mathlib.Data.List.Basic
import Marketplace.AloneRules
import Marketplace.LockDiscipline
import Marketplace.TxnSchedule
import Marketplace.WithdrawalSpecs

/-! # The store after a withdrawal

    `withdraw_account`, alone, on any store: it is refused and changes nothing, whichever
    statement failed, or it commits one set of changes.  The rows that a withdrawal
    touches are found by joins over products, trades and favorites; here they are said
    row by row. -/

namespace Market

open TxnProgram TxnInterleaving TxnAlone

variable {s s' : Store} {u : User} {now : Time}

/-! ## Metrics -/

/-- What `recompute_product_metric` counts. -/
def metricOf (product : Nat) (s : Store) : ProductMetric :=
  { product := product,
    favoriteCount := (s.favorites.filter (·.product == product)).length,
    viewCount := (s.productViews.filter (·.product == product)).length,
    productChatCount :=
      ((s.conversations.filter (·.product == product)).map (·.buyer)).dedup.length,
    completedTradeCount :=
      (s.trades.filter fun r => r.product == product && r.status == .completed).length }

/-- `update_or_create` of a metric. -/
def saveMetric (m : ProductMetric) (rows : List ProductMetric) : List ProductMetric :=
  if rows.any (·.product == m.product) then
    rows.map fun r => if r.product = m.product then m else r
  else rows ++ [m]

/-- A metric row replaces the one of its product. -/
theorem mem_saveMetric (m r : ProductMetric) (rows : List ProductMetric) :
    r ∈ saveMetric m rows ↔ r = m ∨ r ∈ rows ∧ r.product ≠ m.product := by
  rw [saveMetric]
  split
  · next hany =>
      obtain ⟨x, hx, hp⟩ := List.any_eq_true.mp hany
      rw [List.mem_map]
      constructor
      · rintro ⟨y, hy, rfl⟩
        split
        · exact Or.inl rfl
        · next hne => exact Or.inr ⟨hy, hne⟩
      · rintro (rfl | ⟨hr, hne⟩)
        · exact ⟨x, hx, if_pos (beq_iff_eq.mp hp)⟩
        · exact ⟨r, hr, if_neg hne⟩
  · next hnone =>
      rw [List.mem_append, List.mem_singleton]
      constructor
      · rintro (hr | rfl)
        · refine Or.inr ⟨hr, fun hp => hnone ?_⟩
          exact List.any_eq_true.mpr ⟨r, hr, beq_iff_eq.mpr hp⟩
        · exact Or.inl rfl
      · rintro (rfl | ⟨hr, -⟩)
        · exact Or.inr rfl
        · exact Or.inl hr

/-- The metrics after the loop over the favorite products. -/
def savedMetrics (products : List Nat) (s : Store) (rows : List ProductMetric) :
    List ProductMetric :=
  products.foldl (fun rows product => saveMetric (metricOf product s) rows) rows

/-- So do those of a list of products. -/
theorem mem_savedMetrics (r : ProductMetric) (products : List Nat) (s : Store)
    (rows : List ProductMetric) : r ∈ savedMetrics products s rows ↔
      r.product ∈ products ∧ r = metricOf r.product s ∨ r ∈ rows ∧ r.product ∉ products := by
  induction products generalizing rows with
  | nil =>
      constructor
      · exact fun hr => Or.inr ⟨hr, List.not_mem_nil⟩
      · rintro (⟨h, -⟩ | ⟨hr, -⟩)
        · exact absurd h List.not_mem_nil
        · exact hr
  | cons product products ih =>
      have hproduct : (metricOf product s).product = product := rfl
      rw [savedMetrics, List.foldl_cons, ← savedMetrics, ih, mem_saveMetric, List.mem_cons,
        not_or, hproduct]
      constructor
      · rintro (⟨hin, hr⟩ | ⟨rfl | ⟨hr, hne⟩, hout⟩)
        · exact Or.inl ⟨Or.inr hin, hr⟩
        · exact Or.inl ⟨Or.inl rfl, rfl⟩
        · exact Or.inr ⟨hr, hne, hout⟩
      · rintro (⟨hp | hin, hr⟩ | ⟨hr, hne, hout⟩)
        · by_cases hin : r.product ∈ products
          · exact Or.inl ⟨hin, hr⟩
          · refine Or.inr ⟨Or.inl ?_, hin⟩
            rw [hp] at hr
            exact hr
        · exact Or.inl ⟨hin, hr⟩
        · exact Or.inr ⟨Or.inr ⟨hr, hne⟩, hout⟩

/-! ## What a withdrawal raises -/

/-- What the `with` block of `withdraw_account` raises. -/
def RaisedByWithdrawal (e : Exn) : Prop :=
  e.isDatabaseError = true ∨ e = .doesNotExist .user ∨ e = .doesNotExist .revocationTask ∨
    ∃ msg, e = .withdrawalBlocked msg ∨ e = .withdrawalUnavailable msg

/-- A fault of the database is translated. -/
theorem raisedByWithdrawal_faults : FaultsOf ownDatabase RaisedByWithdrawal := by
  rintro e ⟨sqlstate, rfl⟩
  exact Or.inl rfl

theorem raisedByWithdrawal_blocked (msg : String) :
    RaisedByWithdrawal (.withdrawalBlocked msg) := Or.inr (Or.inr (Or.inr ⟨msg, Or.inl rfl⟩))

theorem raisedByWithdrawal_unavailable (msg : String) :
    RaisedByWithdrawal (.withdrawalUnavailable msg) :=
  Or.inr (Or.inr (Or.inr ⟨msg, Or.inr rfl⟩))

/-! ## The statements -/

/-- The counts are read. -/
theorem asks_metricCounts (product : Nat) :
    Asks ownDatabase (metricCounts product) s (fun m => m = metricOf product s)
      RaisedByWithdrawal := by
  have hF := raisedByWithdrawal_faults
  refine Asks.bind (asks_fetch hF _) fun favorites hfavorites => ?_
  refine Asks.bind (asks_fetch hF _) fun views hviews => ?_
  refine Asks.bind (asks_fetch hF _) fun chats hchats => ?_
  refine Asks.bind (asks_fetch hF _) fun completed hcompleted => Asks.ret ?_
  rw [hfavorites, hviews, hchats, hcompleted]
  rfl

/-- One product is counted again. -/
theorem does_recomputeProductMetric {product : Nat}
    (hrow : ∃ r ∈ s.products, r.pk = product) :
    Does ownDatabase (recomputeProductMetric product) s
      (fun _ s' => s' = { s with
        productMetrics := saveMetric (metricOf product s) s.productMetrics })
      RaisedByWithdrawal := by
  have hF := raisedByWithdrawal_faults
  have hfound : s.products.find? (·.pk == product) ≠ none := by
    obtain ⟨r, hr, hpk⟩ := hrow
    exact fun hnone => absurd (beq_iff_eq.mpr hpk) (List.find?_eq_none.mp hnone r hr)
  refine Does.atomic hF (Does.look (asks_getForUpdate hF _ _ _ _ fun hnone =>
    absurd hnone hfound) fun row hrow => ?_)
  have hpk := List.find?_some hrow
  rw [beq_iff_eq] at hpk
  rw [hpk]
  refine Does.look (asks_metricCounts product) fun m hm => ?_
  have hproduct : m.product = product := by rw [hm]; rfl
  refine Does.atomic hF (Does.bind (does_getOrCreate (P := fun r s' =>
      if r.2 then s' = addMetric m s ∧ s.productMetrics.any (·.product == product) = false
      else s' = s ∧ s.productMetrics.any (·.product == product) = true) hF (Or.inl rfl)
    (asks_firstForUpdate hF _ _ _ _) (fun a ha => ?_) fun hnone => ?_) fun r s' hr => ?_)
  · have hp := List.find?_some ha
    exact ⟨rfl, List.any_eq_true.mpr ⟨a, List.mem_of_find?_eq_some ha, hp⟩⟩
  · refine Does.bind (does_insertRow hF (Or.inl rfl) _ _) fun _ s' ⟨_, hs⟩ => Does.ret ?_
    refine ⟨hs, ?_⟩
    rw [List.any_eq_false]
    exact List.find?_eq_none.mp hnone
  · obtain ⟨row', created⟩ := r
    cases created with
    | true =>
        obtain ⟨hs, hnone⟩ := hr
        refine Does.ret ?_
        rw [hs, saveMetric, ← hm, hproduct, if_neg (by rw [hnone]; decide)]
        rfl
    | false =>
        obtain ⟨hs, hany⟩ := hr
        refine Does.bind (does_updateRows hF _ _ _) fun _ s'' hs' => Does.ret ?_
        rw [hs', hs, saveMetric, ← hm, hproduct, if_pos hany, setMetric, hproduct]

/-- Products are counted again one by one. -/
theorem does_recomputeMetrics {products : List Nat}
    (hrows : ∀ p ∈ products, ∃ r ∈ s.products, r.pk = p) (rows : List ProductMetric) :
    Does ownDatabase (recomputeMetrics products) { s with productMetrics := rows }
      (fun _ s' => s' = { s with productMetrics := savedMetrics products s rows })
      RaisedByWithdrawal := by
  induction products generalizing rows with
  | nil => exact Does.ret rfl
  | cons p products ih =>
      refine Does.bind (does_recomputeProductMetric (hrows p List.mem_cons_self))
        fun _ s' hs => ?_
      rw [hs]
      exact ih (fun q hq => hrows q (List.mem_cons_of_mem _ hq)) _

/-- What the locks and checks of a withdrawal found. -/
structure ScopeOf (u : User) (s : Store) (scope : WithdrawalScope) : Prop where
  products : ∀ r : Product, r ∈ scope.products ↔ r ∈ s.products ∧
    ((∃ x ∈ s.products, x.owner = u.pk ∧ x.pk = r.pk) ∨
      (∃ t ∈ s.trades, t.HasParty u.pk ∧ t.product = r.pk) ∨
      ∃ f ∈ s.favorites, f.user = u.pk ∧ f.product = r.pk)
  trades : ∀ t : Trade, t ∈ scope.trades ↔ t ∈ s.trades ∧ t.HasParty u.pk
  favorites : ∀ p, p ∈ scope.favoriteProducts ↔ ∃ f ∈ s.favorites, f.user = u.pk ∧ f.product = p
  reserved : ∀ t ∈ s.trades, t.HasParty u.pk → t.status ≠ .reserved
  account : s.accounts.find? (·.user == u.pk) = some scope.account
  empty : scope.account.balance = 0

/-- The account of the user is found. -/
theorem asks_lockMockAccount (user : Nat) :
    Asks ownDatabase (lockMockAccount user) s
      (fun a => s.accounts.find? (·.user == user) = some a) RaisedByWithdrawal := by
  refine Asks.tryCatch (G := fun e => RaisedByWithdrawal e ∨ ∃ t, e = .doesNotExist t) ?_
    fun e he => ?_
  · have hF : FaultsOf ownDatabase
        (fun e => RaisedByWithdrawal e ∨ ∃ t, e = .doesNotExist t) :=
      fun e he => Or.inl (raisedByWithdrawal_faults e he)
    refine Asks.bind (asks_getForUpdate hF _ _ _ _ fun _ => Or.inr ⟨_, rfl⟩) fun a ha => ?_
    exact Asks.bind (asks_getForUpdate hF _ _ _ _ fun _ => Or.inr ⟨_, rfl⟩) fun _ _ =>
      Asks.ret ha
  · split
    · exact Asks.raise (raisedByWithdrawal_unavailable _)
    · next hne =>
        refine Asks.raise (he.resolve_right ?_)
        rintro ⟨t, rfl⟩
        exact hne t rfl

/-- The filter of the trades is being a party. -/
theorem hasParty_iff (t : Trade) (user : Nat) :
    (t.seller == user || t.buyer == some user) = true ↔ t.HasParty user := by
  rw [Bool.or_eq_true, beq_iff_eq, beq_iff_eq]
  exact Iff.rfl

/-- The retained tables are touched only. -/
theorem asks_assertRetentionAuthoritiesAvailable :
    Asks ownDatabase assertRetentionAuthoritiesAvailable s (fun _ => True)
      RaisedByWithdrawal := by
  have hF := raisedByWithdrawal_faults
  exact Asks.bind (asks_fetch hF _) fun _ _ => Asks.bind (asks_fetch hF _) fun _ _ =>
    Asks.bind (asks_fetch hF _) fun _ _ => Asks.bind (asks_fetch hF _) fun _ _ =>
    Asks.bind (asks_fetch hF _) fun _ _ => Asks.bind (asks_fetch hF _) fun _ _ =>
    Asks.bind (asks_fetch hF _) fun _ _ => Asks.bind (asks_fetch hF _) fun _ _ =>
    Asks.ret trivial

/-- **SPECIFICATION** of the locks and checks. -/
theorem asks_withdrawalScope (u : User) :
    Asks ownDatabase (withdrawalScope u) s (ScopeOf u s) RaisedByWithdrawal := by
  have hF := raisedByWithdrawal_faults
  refine Asks.bind (asks_fetch hF _) fun owned howned => ?_
  refine Asks.bind (asks_fetch hF _) fun traded htraded => ?_
  refine Asks.bind (asks_fetch hF _) fun favorites hfavorites => ?_
  refine Asks.bind (asks_selectForUpdate hF _ _ _ _) fun products hproducts => ?_
  refine Asks.bind (asks_selectForUpdate hF _ _ _ _) fun trades htrades => ?_
  refine Asks.bind (asks_raiseIf fun _ => raisedByWithdrawal_blocked _) fun _ hnone => ?_
  refine Asks.bind (asks_lockMockAccount u.pk) fun account haccount => ?_
  refine Asks.bind (asks_raiseIf fun _ => raisedByWithdrawal_blocked _) fun _ hzero => ?_
  refine Asks.bind (asks_selectForUpdate hF _ _ _ _) fun _ _ => ?_
  refine Asks.bind (asks_selectForUpdate hF _ _ _ _) fun _ _ => ?_
  refine Asks.bind asks_assertRetentionAuthoritiesAvailable fun _ _ => Asks.ret ?_
  have hmem : ∀ t : Trade, t ∈ trades ↔ t ∈ s.trades ∧ t.HasParty u.pk := by
    intro t
    rw [htrades, List.mem_filter, hasParty_iff]
  have hfav : ∀ p, p ∈ favorites ↔ ∃ f ∈ s.favorites, f.user = u.pk ∧ f.product = p := by
    intro p
    rw [hfavorites, List.mem_map]
    simp only [List.mem_filter, beq_iff_eq, and_assoc]
  refine ⟨fun r => ?_, hmem, hfav, fun t ht hp hr => ?_, haccount, by simpa using hzero⟩
  · have howner : ∀ n, n ∈ owned ↔ ∃ x ∈ s.products, x.owner = u.pk ∧ x.pk = n := by
      intro n
      rw [howned, List.mem_map]
      simp only [List.mem_filter, beq_iff_eq, and_assoc]
    have htrade : ∀ n, n ∈ traded ↔ ∃ t ∈ s.trades, t.HasParty u.pk ∧ t.product = n := by
      intro n
      rw [htraded, List.mem_map]
      simp only [List.mem_filter, hasParty_iff, and_assoc]
    rw [hproducts, List.mem_filter, List.contains_iff_mem, List.mem_append, List.mem_append,
      howner, htrade, hfav, or_assoc]
  · rw [List.any_eq_false] at hnone
    exact hnone t ((hmem t).mpr ⟨ht, hp⟩) (beq_iff_eq.mpr hr)

/-! ## The writes -/

/-- The available products are archived, and no others. -/
theorem does_archiveAvailable (u : User) (scope : WithdrawalScope) (now : Time) :
    Does ownDatabase (archiveAvailable u scope now) s
      (fun _ s' => s' = updateProducts (availableProducts u scope) (archive now now) s)
      RaisedByWithdrawal := by
  rw [archiveAvailable]
  split
  · next hnone =>
      refine Does.ret ?_
      rw [List.isEmpty_iff.mp hnone, updateProducts_nil]
  · exact does_updateRows raisedByWithdrawal_faults _ _ _

/-- The store without what the user leaves behind. -/
def clearedStore (u : User) (scope : WithdrawalScope) (now : Time) (s : Store) : Store :=
  let archived := updateProducts (availableProducts u scope) (archive now now) s
  let unfavored :=
    removeFavorites ((s.favorites.filter (·.user == u.pk)).map (·.pk)) archived
  removeNotifications ((s.notifications.filter (·.recipient == u.pk)).map (·.pk))
    { unfavored with
      productMetrics := savedMetrics (scope.favoriteProducts.dedup.insertionSort (· ≤ ·))
        unfavored s.productMetrics }

/-- The holdings of the user are gone, and the rest is counted again. -/
theorem does_clearHoldings {scope : WithdrawalScope} (hscope : ScopeOf u s scope)
    (hexists : ∀ f ∈ s.favorites, ∃ r ∈ s.products, r.pk = f.product) (now : Time) :
    Does ownDatabase (clearHoldings u scope now) s
      (fun _ s' => s' = clearedStore u scope now s) RaisedByWithdrawal := by
  have hF := raisedByWithdrawal_faults
  refine Does.bind (does_archiveAvailable u scope now) fun _ s1 h1 => ?_
  refine Does.bind (does_deleteRows hF _ _ _ _ _) fun _ s2 h2 => ?_
  refine Does.bind (P := fun _ s3 => s3 = { s2 with
    productMetrics := savedMetrics (scope.favoriteProducts.dedup.insertionSort (· ≤ ·)) s2
      s2.productMetrics }) ?_ fun _ s3 h3 => (does_deleteRows hF _ _ _ _ _).mono
        fun _ s4 h4 => ?_
  · refine does_recomputeMetrics (fun p hp => ?_) s2.productMetrics
    rw [List.mem_insertionSort, List.mem_dedup, hscope.favorites] at hp
    obtain ⟨f, hf, -, rfl⟩ := hp
    obtain ⟨r, hr, hpk⟩ := hexists f hf
    rw [h2, h1]
    refine ⟨_, List.mem_map_of_mem hr, ?_⟩
    split
    · exact hpk
    · exact hpk
  · rw [h4, h3, h2, h1]
    rfl

/-- The account is closed, and audited if it was open. -/
theorem does_closeWithdrawnAccount (u : User) (a : MockAccount) (now : Time) :
    Does ownDatabase (closeWithdrawnAccount u a now) s
      (fun _ s' => ∃ audits, s' = { closeIfOpen a now s with transferAudits := audits } ∧
        audits = s.transferAudits ++
          if a.isOpen then [{ actor := u.pk, eventType := "ACCOUNT_CLOSED" }] else [])
      RaisedByWithdrawal := by
  have hF := raisedByWithdrawal_faults
  rw [closeWithdrawnAccount]
  cases hopen : a.isOpen with
  | true =>
      rw [if_pos rfl]
      refine Does.bind (does_updateRows hF _ _ _) fun _ s1 h1 =>
        (does_insertRow hF (Or.inl rfl) _ _).mono fun _ s2 h2 => ⟨s2.transferAudits, ?_, ?_⟩
      · rw [h2.2, h1, closeIfOpen, if_pos hopen]
        rfl
      · rw [h2.2, h1]
        rfl
  | false =>
      rw [if_neg (by decide)]
      refine Does.ret ⟨s.transferAudits, ?_, (List.append_nil _).symm⟩
      rw [closeIfOpen, if_neg (by rw [hopen]; decide)]

/-- The task of the withdrawal: one that was there, or a new one that nobody claimed. -/
def TaskOf (user authEpoch : Nat) (s : Store) (r : RevocationTask × Bool) (s' : Store) : Prop :=
  r.1.user = user ∧ r.1.authEpoch = authEpoch ∧
    (r.1 ∈ s.revocationTasks ∧ r.2 = false ∧ s' = s ∨
      (∀ t ∈ s.revocationTasks, ¬ (t.user = user ∧ t.authEpoch = authEpoch)) ∧ r.2 = true ∧
        r.1.eventKey = withdrawalEventKey user authEpoch ∧ r.1.Unclaimed ∧
        s' = addRevocationTask r.1 s)

/-- The task of the epoch is found or made. -/
theorem does_revocationTask (user authEpoch : Nat) :
    Does ownDatabase (revocationTask user authEpoch) s (TaskOf user authEpoch s)
      RaisedByWithdrawal := by
  have hF := raisedByWithdrawal_faults
  refine does_getOrCreate hF (Or.inl rfl) (asks_fetch hF _) (fun t ht => ?_) fun hnone => ?_
  · have hp := List.find?_some ht
    rw [Bool.and_eq_true, beq_iff_eq, beq_iff_eq] at hp
    exact ⟨hp.1, hp.2, Or.inl ⟨List.mem_of_find?_eq_some ht, rfl, rfl⟩⟩
  · refine Does.look Asks.fresh fun n _ => Does.look asks_timezoneNow fun availableAt _ => ?_
    refine Does.bind (does_insertRow hF (Or.inl rfl) _ _) fun _ s' ⟨_, hs⟩ => Does.ret ?_
    refine ⟨rfl, rfl, Or.inr ⟨fun t ht hp => ?_, rfl, rfl, ⟨rfl, rfl, rfl, rfl, rfl⟩, hs⟩⟩
    refine absurd ?_ (List.find?_eq_none.mp hnone t ht)
    rw [Bool.and_eq_true, beq_iff_eq, beq_iff_eq]
    exact hp

/-- What the `with` block leaves. -/
structure WithdrawalCommit (u : User) (password : String) (s : Store) (r : WithdrawalResult)
    (s' : Store) (now : Time) (scope : WithdrawalScope) : Prop where
  row : s.users.find? (·.pk == u.pk) = some u
  active : u.withdrawnAt = none ∧ u.isActive = true ∧ password ≠ "" ∧
    u.password = some password
  found : ScopeOf u s scope
  store : ∃ audits tasks, s' = { setWithdrawn u now
      (closeIfOpen scope.account now (clearedStore u scope now s)) with
        transferAudits := audits, revocationTasks := tasks } ∧
    audits = s.transferAudits ++ (if scope.account.isOpen then
      [{ actor := u.pk, eventType := "ACCOUNT_CLOSED" }] else []) ∧
    TaskOf u.pk (u.authEpoch + 1) s (r.task, r.created)
      { s with revocationTasks := tasks }

/-- **SPECIFICATION** of the writes of a withdrawal. -/
theorem does_commitWithdrawal {scope : WithdrawalScope} {password : String}
    (hrow : s.users.find? (·.pk == u.pk) = some u)
    (hactive : u.withdrawnAt = none ∧ u.isActive = true ∧ password ≠ "" ∧
      u.password = some password) (hscope : ScopeOf u s scope)
    (hexists : ∀ f ∈ s.favorites, ∃ r ∈ s.products, r.pk = f.product) :
    Does ownDatabase (commitWithdrawal u scope) s
      (fun r s' => ∃ now, WithdrawalCommit u password s r s' now scope)
      RaisedByWithdrawal := by
  have hF := raisedByWithdrawal_faults
  refine Does.look (asks_currentTimestamp hF) fun now _ => ?_
  refine Does.bind (does_clearHoldings hscope hexists now) fun _ s1 h1 => ?_
  refine Does.bind (does_closeWithdrawnAccount u scope.account now)
    fun _ s2 ⟨audits, h2, haudits⟩ => ?_
  refine Does.bind (does_updateRows hF _ _ _) fun _ s3 h3 => ?_
  refine Does.bind (does_revocationTask u.pk (u.authEpoch + 1))
    fun ⟨task, created⟩ s4 htask => Does.ret ⟨now, hrow, hactive, hscope, ?_⟩
  have hthree : s3 = { setWithdrawn u now (closeIfOpen scope.account now
      (clearedStore u scope now s)) with transferAudits := audits } := by
    rw [h3, h2, h1]
    rfl
  have htasks : s3.revocationTasks = s.revocationTasks := by
    rw [hthree, closeIfOpen]
    split <;> rfl
  refine ⟨audits, s4.revocationTasks, ?_, ?_, ?_⟩
  · obtain ⟨-, -, ⟨-, -, h4⟩ | ⟨-, -, -, -, h4⟩⟩ := htask
    · rw [h4, hthree]
    · rw [h4, hthree]
      rfl
  · rw [haudits, h1]
    rfl
  · obtain ⟨huser, hepoch, htask⟩ := htask
    refine ⟨huser, hepoch, ?_⟩
    rw [htasks] at htask
    rcases htask with ⟨hin, hcreated, h4⟩ | ⟨hnone, hcreated, hkey, hnew, h4⟩
    · refine Or.inl ⟨hin, hcreated, ?_⟩
      rw [h4, htasks]
    · refine Or.inr ⟨hnone, hcreated, hkey, hnew, ?_⟩
      rw [h4, addRevocationTask, htasks]
      rfl

/-- How the call for a user that did not withdraw before ends. -/
def WithdrawalAnswer (user : Nat) (password : String) (s : Store) (r : WithdrawalResult)
    (s' : Store) : Prop :=
  ∃ u now scope, u.pk = user ∧ WithdrawalCommit u password s r s' now scope

/-- **SPECIFICATION** of the transaction, on its whole effect. -/
theorem does_withdrawAccountBody {user : Nat} {password : String}
    (hfirst : ∀ u ∈ s.users, u.pk = user → u.withdrawnAt = none)
    (hexists : ∀ f ∈ s.favorites, ∃ r ∈ s.products, r.pk = f.product) :
    Does ownDatabase (withdrawAccountBody user password) s (WithdrawalAnswer user password s)
      RaisedByWithdrawal := by
  have hF := raisedByWithdrawal_faults
  refine Does.look (asks_getForUpdate hF _ _ _ _ fun _ => Or.inr (Or.inl rfl)) fun u hu => ?_
  have hpk := List.find?_some hu
  rw [beq_iff_eq] at hpk
  have hnone := hfirst u (List.mem_of_find?_eq_some hu) hpk
  rw [hnone, if_neg (by decide)]
  refine Does.look (asks_raiseIf fun _ => raisedByWithdrawal_blocked _) fun _ hcheck => ?_
  have hactive : u.withdrawnAt = none ∧ u.isActive = true ∧ password ≠ "" ∧
      u.password = some password := by
    rw [Bool.or_eq_false_iff, Bool.or_eq_false_iff, Bool.not_eq_false', bne_eq_false_iff_eq]
      at hcheck
    refine ⟨hnone, hcheck.1.1, fun hempty => ?_, hcheck.2⟩
    rw [hempty] at hcheck
    exact absurd hcheck.1.2 (by decide)
  refine Does.look (asks_withdrawalScope u) fun scope hscope => ?_
  rw [← hpk] at hu
  exact (does_commitWithdrawal hu hactive hscope hexists).mono fun r s' ⟨now, h⟩ =>
    ⟨u, now, scope, hpk, h⟩

/-- The ledger is left alone, so that the trigger of journals has nothing to check. -/
theorem WithdrawalCommit.deferred {password : String} {r : WithdrawalResult}
    {scope : WithdrawalScope} (h : WithdrawalCommit u password s r s' now scope) :
    s'.journals = s.journals ∧ s'.entries = s.entries := by
  obtain ⟨audits, tasks, hs, -, -⟩ := h.store
  rw [hs, closeIfOpen]
  split <;> exact ⟨rfl, rfl⟩

/-- **CALL**: it commits a withdrawal, or is refused and changes nothing. -/
theorem performs_withdrawAccount {user : Nat} {password : String}
    (hfirst : ∀ u ∈ s.users, u.pk = user → u.withdrawnAt = none)
    (hexists : ∀ f ∈ s.favorites, ∃ r ∈ s.products, r.pk = f.product) :
    Performs ownDatabase (withdrawAccount user password) s fun
      | .ok r, s' => WithdrawalAnswer user password s r s'
      | .error e, s' =>
          (∃ msg, e = .withdrawalBlocked msg ∨ e = .withdrawalUnavailable msg) ∧ s' = s := by
  refine Performs.tryCatch (P := fun
    | .ok r, s' => WithdrawalAnswer user password s r s'
    | .error e, s' => RaisedByWithdrawal e ∧ s' = s)
    (Performs.atomic raisedByWithdrawal_faults (does_withdrawAccountBody hfirst hexists)
      (fun _ _ h _ => h) (fun e he => ⟨he, rfl⟩) fun r s' e ⟨_, _, _, _, h⟩ hd => ?_)
    (fun e s' ⟨he, hs⟩ => ?_) fun _ _ h => h
  · have hnone : validateBalancedJournal s s' = none :=
      validateBalancedJournal_same h.deferred.1 h.deferred.2
    rw [show ownDatabase.deferred s s' = validateBalancedJournal s s' from rfl, hnone] at hd
    exact nomatch hd
  · split
    · exact Performs.raise ⟨⟨_, Or.inr rfl⟩, hs⟩
    · next hother =>
        refine Performs.raise ⟨?_, hs⟩
        rcases he with hdb | rfl | rfl | hmsg
        · rw [hdb] at hother
          exact absurd rfl hother
        · exact absurd rfl hother
        · exact absurd rfl hother
        · exact hmsg

/-! ## Row by row -/

/-- Keys of the tables that a withdrawal writes: primary keys, the one account of a user,
    the one task of a user and an epoch, and the product of a favorite. -/
structure KeyedRows (s : Store) : Prop where
  products : (s.products.map (·.pk)).Nodup
  favorites : (s.favorites.map (·.pk)).Nodup
  notifications : (s.notifications.map (·.pk)).Nodup
  accounts : (s.accounts.map (·.pk)).Nodup
  accountUsers : (s.accounts.map (·.user)).Nodup
  tasks : (s.revocationTasks.map fun t => (t.user, t.authEpoch)).Nodup
  favoriteProducts : ∀ f ∈ s.favorites, ∃ r ∈ s.products, r.pk = f.product

/-- A product of the user on sale that no completed trade of the user is about. -/
def isAvailable (u : User) (s : Store) (r : Product) : Bool :=
  r.owner == u.pk && r.archivedAt.isNone && !s.trades.any fun t =>
    (t.seller == u.pk || t.buyer == some u.pk) && t.status == .completed && t.product == r.pk

/-- The account of the user, closed now when it was open. -/
def closedAccount (u : User) (now : Time) (a : MockAccount) : MockAccount :=
  if a.user = u.pk then
    { a with isOpen := false, closedAt := if a.isOpen then some now else a.closedAt }
  else a

/-- The row of the user that withdraws. -/
def withdrawnUser (u : User) (now : Time) (x : User) : User :=
  if x.pk = u.pk then
    { x with isActive := false, withdrawnAt := some now, authEpoch := u.authEpoch + 1,
             password := none }
  else x

/-- What a withdrawal of the user makes of the store, and when it may. -/
structure WithdrawalEffect (u : User) (password : String) (r : WithdrawalResult) (now : Time)
    (s s' : Store) : Prop where
  /-- The password checks, no reserved trade involves the user, and the balance is zero. -/
  allowed : s.users.find? (·.pk == u.pk) = some u ∧ u.withdrawnAt = none ∧
    u.isActive = true ∧ password ≠ "" ∧ u.password = some password
  reserved : ∀ t ∈ s.trades, t.HasParty u.pk → t.status ≠ .reserved
  balance : ∃ a ∈ s.accounts, a.user = u.pk ∧ a.balance = 0
  users : s'.users = s.users.map (withdrawnUser u now)
  accounts : s'.accounts = s.accounts.map (closedAccount u now)
  products : s'.products =
    s.products.map fun r => if isAvailable u s r then archive now now r else r
  favorites : s'.favorites = s.favorites.filter (·.user != u.pk)
  notifications : s'.notifications = s.notifications.filter (·.recipient != u.pk)
  /-- The metrics of the products that the user had favored are counted again. -/
  metrics : ∀ m, m ∈ s'.productMetrics ↔
    (∃ f ∈ s.favorites, f.user = u.pk ∧ f.product = m.product) ∧
        m = metricOf m.product { s with favorites := s'.favorites } ∨
      m ∈ s.productMetrics ∧ ∀ f ∈ s.favorites, f.user = u.pk → f.product ≠ m.product
  task : r.task.user = u.pk ∧ r.task.authEpoch = u.authEpoch + 1 ∧
    s'.revocationTasks.filter (fun t => t.user == u.pk && t.authEpoch == u.authEpoch + 1) =
      [r.task] ∧
    (s'.revocationTasks = s.revocationTasks ∨ s'.revocationTasks = s.revocationTasks ++ [r.task])
  audits : s'.transferAudits = s.transferAudits ++
    if s.accounts.any (fun a => a.user == u.pk && a.isOpen) then
      [{ actor := u.pk, eventType := "ACCOUNT_CLOSED" }] else []
  /-- Nothing else changes. -/
  rest : s' = { s with
    users := s'.users, accounts := s'.accounts, products := s'.products,
    favorites := s'.favorites, notifications := s'.notifications,
    productMetrics := s'.productMetrics, revocationTasks := s'.revocationTasks,
    transferAudits := s'.transferAudits }

/-- What the code archives is what is available. -/
theorem available_iff (hkeys : KeyedRows s) {scope : WithdrawalScope} (hscope : ScopeOf u s scope)
    {r : Product} (hr : r ∈ s.products) :
    (availableProducts u scope).contains r.pk = isAvailable u s r := by
  have hcompleted : ((scope.trades.filter (·.status == .completed)).map (·.product)).contains r.pk =
      s.trades.any fun t => (t.seller == u.pk || t.buyer == some u.pk) &&
        t.status == .completed && t.product == r.pk := by
    rw [Bool.eq_iff_iff, List.contains_iff_mem, List.mem_map, List.any_eq_true]
    simp only [List.mem_filter, hscope.trades, Bool.and_eq_true, hasParty_iff, beq_iff_eq,
      and_assoc]
  rw [Bool.eq_iff_iff, List.contains_iff_mem, availableProducts, List.mem_map]
  constructor
  · rintro ⟨x, hx, hpk⟩
    obtain ⟨hx, hp⟩ := List.mem_filter.mp hx
    have hxr : x = r := List.inj_on_of_nodup_map hkeys.products ((hscope.products x).mp hx).1 hr hpk
    rw [hxr, hcompleted] at hp
    exact hp
  · intro hp
    refine ⟨r, List.mem_filter.mpr ⟨(hscope.products r).mpr ⟨hr, Or.inl ⟨r, hr, ?_, rfl⟩⟩, ?_⟩, rfl⟩
    · rw [isAvailable, Bool.and_eq_true, Bool.and_eq_true, beq_iff_eq] at hp
      exact hp.1.1
    · rw [hcompleted]
      exact hp

/-- Deleting the rows of the user by primary key keeps those of the others. -/
theorem filter_not_found {ρ : Type} {rows : List ρ} {pk user : ρ → Nat} (n : Nat)
    (hkeys : (rows.map pk).Nodup) :
    (rows.filter fun r => !((rows.filter (user · == n)).map pk).contains (pk r)) =
      rows.filter (user · != n) := by
  refine List.filter_congr fun r hr => ?_
  rw [Bool.eq_iff_iff, Bool.not_eq_true', bne_iff_ne, ← Bool.not_eq_true, List.contains_iff_mem,
    List.mem_map]
  refine not_congr ⟨?_, fun hu => ⟨r, List.mem_filter.mpr ⟨hr, beq_iff_eq.mpr hu⟩, rfl⟩⟩
  rintro ⟨x, hx, hpk⟩
  obtain ⟨hx, hu⟩ := List.mem_filter.mp hx
  rw [← List.inj_on_of_nodup_map hkeys hx hr hpk]
  exact beq_iff_eq.mp hu

/-- A row that is found by a unique key is the one with the key. -/
theorem find_unique {ρ : Type} {rows : List ρ} {key : ρ → Nat} {r : ρ} {n : Nat}
    (hkeys : (rows.map key).Nodup) (hfound : rows.find? (key · == n) = some r) {x : ρ}
    (hx : x ∈ rows) (hn : key x = n) : x = r := by
  have hr := List.find?_some hfound
  rw [beq_iff_eq] at hr
  exact List.inj_on_of_nodup_map hkeys hx (List.mem_of_find?_eq_some hfound) (hn.trans hr.symm)

/-- Closing the account that was found closes the user's only account. -/
theorem accounts_closeIfOpen (hkeys : KeyedRows s) {a : MockAccount}
    (ha : s.accounts.find? (·.user == u.pk) = some a) :
    (closeIfOpen a now s).accounts = s.accounts.map (closedAccount u now) := by
  have hmem := List.mem_of_find?_eq_some ha
  have huser := List.find?_some ha
  rw [beq_iff_eq] at huser
  have other : ∀ x ∈ s.accounts, x.pk ≠ a.pk → closedAccount u now x = x := by
    intro x hx hne
    refine if_neg fun hu => hne ?_
    rw [find_unique hkeys.accountUsers ha hx hu]
  have own : ∀ x ∈ s.accounts, x.pk = a.pk → x = a := fun x hx hpk =>
    List.inj_on_of_nodup_map hkeys.accounts hx hmem hpk
  rw [closeIfOpen]
  cases hopen : a.isOpen with
  | true =>
      rw [if_pos rfl]
      refine List.map_congr_left fun x hx => ?_
      split
      · next hpk =>
          rw [own x hx hpk, closedAccount, if_pos huser, hopen, if_pos rfl]
      · next hne => exact (other x hx hne).symm
  | false =>
      rw [if_neg (by decide)]
      refine (Eq.trans (List.map_congr_left (g := id) fun x hx => ?_) (List.map_id _)).symm
      by_cases hpk : x.pk = a.pk
      · rw [own x hx hpk, closedAccount, if_pos huser, hopen, if_neg (by decide)]
        have hsame : { a with isOpen := false } = a := by rw [← hopen]
        exact hsame
      · exact other x hx hpk

/-- The epoch has one task, the one that is answered. -/
theorem tasks_withdrawn (hkeys : KeyedRows s) {n epoch : Nat} {r : RevocationTask × Bool}
    {tasks : List RevocationTask}
    (h : TaskOf n epoch s r { s with revocationTasks := tasks }) :
    tasks.filter (fun t => t.user == n && t.authEpoch == epoch) = [r.1] ∧
      (tasks = s.revocationTasks ∨ tasks = s.revocationTasks ++ [r.1]) := by
  obtain ⟨huser, hepoch, ⟨hin, -, hs⟩ | ⟨hnone, -, -, -, hs⟩⟩ := h
  · have htasks : tasks = s.revocationTasks := congrArg Store.revocationTasks hs
    refine ⟨?_, Or.inl htasks⟩
    rw [htasks]
    have hnodup : s.revocationTasks.Nodup := hkeys.tasks.of_map
    have hself : (r.1.user == n && r.1.authEpoch == epoch) = true := by
      rw [huser, hepoch, beq_self_eq_true, beq_self_eq_true]
      rfl
    refine List.perm_singleton.mp ((List.perm_ext_iff_of_nodup (hnodup.filter _)
      (List.nodup_singleton _)).mpr fun t => ?_)
    rw [List.mem_filter, List.mem_singleton]
    constructor
    · rintro ⟨ht, hp⟩
      rw [Bool.and_eq_true, beq_iff_eq, beq_iff_eq] at hp
      refine List.inj_on_of_nodup_map hkeys.tasks ht hin ?_
      rw [hp.1, hp.2, huser, hepoch]
    · rintro rfl
      exact ⟨hin, hself⟩
  · have htasks : tasks = s.revocationTasks ++ [r.1] := congrArg Store.revocationTasks hs
    refine ⟨?_, Or.inr htasks⟩
    have hold : s.revocationTasks.filter (fun t => t.user == n && t.authEpoch == epoch) = [] := by
      refine List.filter_eq_nil_iff.mpr fun t ht hp => hnone t ht ?_
      rw [Bool.and_eq_true, beq_iff_eq, beq_iff_eq] at hp
      exact hp
    rw [htasks, List.filter_append, hold, List.nil_append]
    refine List.filter_cons_of_pos ?_
    rw [huser, hepoch, beq_self_eq_true, beq_self_eq_true]
    rfl

/-- **EFFECT**: what is committed, row by row. -/
theorem WithdrawalCommit.effect (hkeys : KeyedRows s) {password : String} {r : WithdrawalResult}
    {scope : WithdrawalScope} (h : WithdrawalCommit u password s r s' now scope) :
    WithdrawalEffect u password r now s s' := by
  obtain ⟨audits, tasks, hs, haudits, htask⟩ := h.store
  have hfound := h.found
  have haccount := List.mem_of_find?_eq_some hfound.account
  have huser := List.find?_some hfound.account
  rw [beq_iff_eq] at huser
  -- what closing the account leaves of the cleared store
  have hclosed : ∀ d : Store, closeIfOpen scope.account now d =
      { d with accounts := (closeIfOpen scope.account now d).accounts } := by
    intro d
    rw [closeIfOpen]
    split <;> rfl
  have hfavorites : s'.favorites = s.favorites.filter (·.user != u.pk) := by
    rw [hs, hclosed]
    exact filter_not_found u.pk hkeys.favorites
  obtain ⟨htasks, htasks'⟩ := tasks_withdrawn hkeys htask
  have hstored : s'.revocationTasks = tasks := by rw [hs]
  refine ⟨⟨h.row, h.active⟩, hfound.reserved, ⟨_, haccount, huser, hfound.empty⟩, ?_, ?_, ?_,
    hfavorites, ?_, fun m => ?_, ⟨htask.1, htask.2.1, ?_, ?_⟩, ?_, ?_⟩
  · rw [hs, hclosed]
    rfl
  · rw [← accounts_closeIfOpen hkeys hfound.account, hs, closeIfOpen, closeIfOpen]
    split <;> rfl
  · rw [hs, hclosed]
    refine List.map_congr_left fun x hx => ?_
    rw [available_iff hkeys hfound hx]
  · rw [hs, hclosed]
    exact filter_not_found u.pk hkeys.notifications
  · have hmetrics : s'.productMetrics = savedMetrics
        (scope.favoriteProducts.dedup.insertionSort (· ≤ ·))
        (removeFavorites ((s.favorites.filter (·.user == u.pk)).map (·.pk))
          (updateProducts (availableProducts u scope) (archive now now) s)) s.productMetrics := by
      rw [hs, hclosed]
      rfl
    have hcount : metricOf m.product (removeFavorites
        ((s.favorites.filter (·.user == u.pk)).map (·.pk))
        (updateProducts (availableProducts u scope) (archive now now) s)) =
        metricOf m.product { s with favorites := s'.favorites } := by
      rw [hfavorites, ← filter_not_found u.pk hkeys.favorites]
      rfl
    rw [hmetrics, mem_savedMetrics, List.mem_insertionSort, List.mem_dedup, hfound.favorites,
      hcount]
    refine or_congr Iff.rfl (and_congr Iff.rfl ?_)
    rw [not_exists]
    refine forall_congr' fun f => ?_
    rw [not_and, not_and]
  · rw [hstored]
    exact htasks
  · rw [hstored]
    exact htasks'
  · have hopen : s.accounts.any (fun a => a.user == u.pk && a.isOpen) = scope.account.isOpen := by
      rw [Bool.eq_iff_iff, List.any_eq_true]
      constructor
      · rintro ⟨a, ha, hp⟩
        rw [Bool.and_eq_true, beq_iff_eq] at hp
        rw [← find_unique hkeys.accountUsers hfound.account ha hp.1]
        exact hp.2
      · intro hopen
        refine ⟨_, haccount, ?_⟩
        rw [hopen, huser, beq_self_eq_true]
        rfl
    rw [hopen, ← haudits, hs]
  · rw [hs, hclosed]
    rfl

/-- **WITHDRAWAL, ALL OR NOTHING**: alone on any store whose rows have their keys, for a
    user that has not withdrawn, and whichever statements fail, a call that raises says
    that it was blocked or is unavailable and leaves the store as it was; and one that
    returns has the effect of a withdrawal, on a store where it is allowed. -/
theorem withdrawal_all_or_nothing (user : Nat) (password : String) {s : Store} {now : Time}
    {c : Config (Fin 1) Store Lock Exn Obs WithdrawalResult} (hkeys : KeyedRows s)
    (hfirst : ∀ u ∈ s.users, u.pk = user → u.withdrawnAt = none)
    (hr : Reached s now (fun _ => withdrawAccount user password) c) :
    (∀ e, c.prog 0 = .raise e →
      (∃ msg, e = .withdrawalBlocked msg ∨ e = .withdrawalUnavailable msg) ∧ c.db = s) ∧
    ∀ r, c.prog 0 = .ret r → ∃ u withdrawnAt, u.pk = user ∧
      WithdrawalEffect u password r withdrawnAt s c.db := by
  obtain ⟨hok, herr⟩ := (performs_withdrawAccount hfirst hkeys.favoriteProducts).run
    Lock.conflicts_symm (fun _ _ h => False.elim h) hr
  refine ⟨herr, fun r he => ?_⟩
  obtain ⟨u, withdrawnAt, scope, hpk, hcommit⟩ := hok r he
  exact ⟨u, withdrawnAt, hpk, hcommit.effect hkeys⟩

/-- A member with two products, one of which is sold, a favorite and a notification. -/
def memberLeaving : Store where
  users := [{ pk := 1, username := "leaving_one", password := some "correct horse" },
    { pk := 2, username := "staying_one" }]
  products := [{ pk := 3, owner := 1 }, { pk := 4, owner := 1 }, { pk := 5, owner := 2 }]
  trades := [{ pk := 6, product := 4, seller := 1, buyer := some 2, status := .completed }]
  favorites := [{ pk := 7, user := 1, product := 5 }, { pk := 8, user := 2, product := 5 }]
  notifications := [{ pk := 9, recipient := 1, eventKey := "e", kind := "k", payload := [] }]
  accounts := [{ pk := 10, user := 1, balance := 0 }]
  ledgerAccounts := [{ pk := 11, kind := .user, mockAccount := some 10, code := "USER:1" }]

/-- The store of the example has its keys. -/
theorem memberLeaving_keyed : KeyedRows memberLeaving where
  products := by decide
  favorites := by decide
  notifications := by decide
  accounts := by decide
  accountUsers := by decide
  tasks := by decide
  favoriteProducts := by decide

/-- The member's unsold product is archived, and its favorite and notice are gone. -/
theorem memberLeaving_withdrawn :
    ∃ c : Config (Fin 1) Store Lock Exn Obs WithdrawalResult,
      Reached memberLeaving 1000 (fun _ => withdrawAccount 1 "correct horse") c ∧
      (c.db.products.map (·.archivedAt), c.db.favorites.map (·.pk),
        c.db.productMetrics.map (·.favoriteCount)) = ([some 1000, none, none], [8], [1]) ∧
      ∃ r u withdrawnAt, c.prog 0 = .ret r ∧ u.pk = 1 ∧
        WithdrawalEffect u "correct horse" r withdrawnAt memberLeaving c.db := by
  have hplay : (TxnSchedule.play validateBalancedJournal [.run 0 100 (fun n => 20 + n)]
      (Config.start (V := Obs) memberLeaving 1000 fun _ : Fin 1 =>
        withdrawAccount 1 "correct horse")).map (fun c =>
          ((c.db.products.map (·.archivedAt), c.db.favorites.map (·.pk),
            c.db.productMetrics.map (·.favoriteCount)),
            (answered (c.prog 0)).map fun r => r.toOption.isSome)) =
      some (([some 1000, none, none], [8], [1]), some true) := by decide +kernel
  obtain ⟨c, hr, hc⟩ := TxnSchedule.reaches_of_play (D := postgres fun _ _ => False)
    (f := fun c => _) hplay
  obtain ⟨hrows, hanswer⟩ := Prod.ext_iff.mp hc
  obtain ⟨r, hans, hsome⟩ := Option.map_eq_some_iff.mp hanswer
  have hended : c.prog 0 = Prog.ofAnswer r := answered_eq hans
  cases r with
  | error e => exact nomatch hsome
  | ok r =>
      obtain ⟨u, withdrawnAt, hpk, heffect⟩ := (withdrawal_all_or_nothing 1 "correct horse"
        memberLeaving_keyed (by decide) hr).2 r hended
      exact ⟨c, hr, hrows, r, u, withdrawnAt, hended, hpk, heffect⟩

end Market
