import Marketplace.Store
import Mathlib.Data.List.Nodup

/-! # The cutover of legacy sales

    `backfill_legacy_sold` and `reverse_legacy_sold` of `trades/migrations/0001` and
    `_revalidate_legacy_sold` of `catalog/migrations/0004`, over the tables as their
    constraints allow them.  A table is the list of its rows in the order of its queries,
    the newest first; the columns that the migrations do not read are left out. -/

namespace Market

/-! ## The tables -/

inductive SaleState where
  | available | sold
  deriving DecidableEq

/-- A row of `catalog_product` at the cutover. -/
structure LegacyProduct where
  pk : Nat
  owner : Nat
  saleState : SaleState
  updatedAt : Time
  deriving DecidableEq

/-- A row of `trades_trade` at the cutover. -/
structure LegacyTrade where
  product : Nat
  seller : Nat
  buyer : Option Nat
  kind : TradeKind
  status : TradeStatus
  completedAt : Option Time
  deriving DecidableEq

/-- `trades_buyer_kind_typed`. -/
def LegacyTrade.BuyerKindTyped (t : LegacyTrade) : Prop :=
  (t.kind = .legacySold ∧ t.status = .completed ∧ t.buyer = none ∧ t.completedAt.isSome) ∨
    (t.kind = .standard ∧ t.buyer.isSome)

/-- `trades_completed_at_typed`. -/
def LegacyTrade.CompletedAtTyped (t : LegacyTrade) : Prop :=
  (t.status = .completed ∧ t.completedAt.isSome) ∨
    ((t.status = .reserved ∨ t.status = .cancelled) ∧ t.completedAt = none)

instance (t : LegacyTrade) : Decidable t.BuyerKindTyped :=
  inferInstanceAs (Decidable (_ ∨ _))

instance (t : LegacyTrade) : Decidable t.CompletedAtTyped :=
  inferInstanceAs (Decidable (_ ∨ _))

/-- The products of the rows that `trades_one_noncancelled_per_product` is about. -/
def liveProducts (trades : List LegacyTrade) : List Nat :=
  (trades.filter fun t => t.status ≠ .cancelled).map (·.product)

/-- The constraints of the tables. -/
structure CutoverConstraints (products : List LegacyProduct) (trades : List LegacyTrade) :
    Prop where
  keys : (products.map (·.pk)).Nodup
  buyerKind : ∀ t ∈ trades, t.BuyerKindTyped
  completedAt : ∀ t ∈ trades, t.CompletedAtTyped
  oneLive : (liveProducts trades).Nodup
  references : ∀ t ∈ trades, t.product ∈ products.map (·.pk)

instance (products : List LegacyProduct) (trades : List LegacyTrade) :
    Decidable (CutoverConstraints products trades) :=
  decidable_of_iff ((products.map (·.pk)).Nodup ∧ (∀ t ∈ trades, t.BuyerKindTyped) ∧
      (∀ t ∈ trades, t.CompletedAtTyped) ∧ (liveProducts trades).Nodup ∧
      ∀ t ∈ trades, t.product ∈ products.map (·.pk))
    ⟨fun ⟨h1, h2, h3, h4, h5⟩ => ⟨h1, h2, h3, h4, h5⟩,
      fun ⟨h1, h2, h3, h4, h5⟩ => ⟨h1, h2, h3, h4, h5⟩⟩

/-- Tables that keep their constraints. -/
structure CutoverTables where
  products : List LegacyProduct
  trades : List LegacyTrade
  constraints : CutoverConstraints products trades

/-- What a migration raises. -/
inductive CutoverError where
  | runtimeError (message : String)
  | integrityError
  | keyError
  deriving DecidableEq

/-- A migration is one transaction: what it did before it raised is undone. -/
def migrate (operation : CutoverTables → Except CutoverError CutoverTables) (s : CutoverTables) :
    Except CutoverError Unit × CutoverTables :=
  match operation s with
  | .ok s' => (.ok (), s')
  | .error e => (.error e, s)

/-! ## The migrations -/

/-- `_legacy_trade_matches`. -/
def legacyTradeMatches (t : LegacyTrade) (p : LegacyProduct) : Bool :=
  t.seller == p.owner && t.buyer == none && t.kind == .legacySold && t.status == .completed &&
    t.completedAt == some p.updatedAt

def soldProducts (s : CutoverTables) : List LegacyProduct :=
  s.products.filter (·.saleState == .sold)

def soldIds (s : CutoverTables) : List Nat := (soldProducts s).map (·.pk)

def legacyTrades (s : CutoverTables) : List LegacyTrade := s.trades.filter (·.kind == .legacySold)

/-- `a == b`, of the sets of their elements. -/
def sameSet (a b : List Nat) : Bool := a.all b.contains && b.all a.contains

/-- `{trade["product_id"]: trade ...}.get(product)`: the last of the rows. -/
def tradeOf (rows : List LegacyTrade) (product : Nat) : Option LegacyTrade :=
  rows.reverse.find? (·.product == product)

/-- The row that is created for a product. -/
def legacyRow (p : LegacyProduct) : LegacyTrade where
  product := p.pk
  seller := p.owner
  buyer := none
  kind := .legacySold
  status := .completed
  completedAt := some p.updatedAt

/-- `Trade.objects.create(...)`. -/
def createTrade (row : LegacyTrade) (s : CutoverTables) : Except CutoverError CutoverTables :=
  if h : CutoverConstraints s.products (row :: s.trades) then
    .ok { products := s.products, trades := row :: s.trades, constraints := h }
  else .error .integrityError

/-- The loop over the sold products. -/
def backfillProducts (existing : List LegacyTrade) :
    List LegacyProduct → CutoverTables → Except CutoverError CutoverTables
  | [], s => .ok s
  | p :: products, s =>
      match tradeOf existing p.pk with
      | some t =>
          if !legacyTradeMatches t p then
            .error (.runtimeError ("legacy SOLD provenance mismatch: product=" ++ toString p.pk))
          else backfillProducts existing products s
      | none =>
          match createTrade (legacyRow p) s with
          | .error e => .error e
          | .ok s => backfillProducts existing products s

def backfillLegacySold (s : CutoverTables) : Except CutoverError CutoverTables :=
  let sold := soldIds s
  if !((legacyTrades s).map (·.product)).all sold.contains then
    .error (.runtimeError "legacy Trade rows do not match legacy SOLD products")
  else
    let existing := s.trades.filter fun t => sold.contains t.product
    match backfillProducts existing (soldProducts s) s with
    | .error e => .error e
    | .ok s' =>
        let actual := (s'.trades.filter fun t =>
          t.kind == .legacySold && t.status == .completed).map (·.product)
        if !sameSet actual sold then
          .error (.runtimeError "legacy SOLD product ID mismatch after backfill")
        else .ok s'

/-- The loop over the legacy trades, with what it raises of the product of a mismatch. -/
def checkProvenance (message : Nat → String) (products : List LegacyProduct) :
    List LegacyTrade → Except CutoverError Unit
  | [] => .ok ()
  | t :: trades =>
      match products.find? (·.pk == t.product) with
      | none => .error .keyError
      | some p =>
          if !legacyTradeMatches t p then .error (.runtimeError (message t.product))
          else checkProvenance message products trades

/-- Fewer trades have fewer live products. -/
theorem liveProducts_sublist {trades trades' : List LegacyTrade} (h : trades.Sublist trades') :
    (liveProducts trades).Sublist (liveProducts trades') :=
  (h.filter _).map _

/-- Fewer trades keep the constraints. -/
theorem CutoverConstraints.sublist {products : List LegacyProduct}
    {trades trades' : List LegacyTrade} (h : CutoverConstraints products trades')
    (hsub : trades.Sublist trades') : CutoverConstraints products trades where
  keys := h.keys
  buyerKind t ht := h.buyerKind t (hsub.subset ht)
  completedAt t ht := h.completedAt t (hsub.subset ht)
  oneLive := h.oneLive.sublist (liveProducts_sublist hsub)
  references t ht := h.references t (hsub.subset ht)

/-- `Trade.objects.filter(kind="LEGACY_SOLD").delete()`. -/
def deleteLegacy (s : CutoverTables) : CutoverTables where
  products := s.products
  trades := s.trades.filter fun t => t.kind ≠ .legacySold
  constraints := s.constraints.sublist List.filter_sublist

def reverseLegacySold (s : CutoverTables) : Except CutoverError CutoverTables :=
  if s.trades.any (·.kind != .legacySold) then
    .error (.runtimeError "cannot reverse typed Trade authority after lifecycle writes")
  else if !sameSet ((legacyTrades s).map (·.product)) (soldIds s) then
    .error (.runtimeError "cannot reverse typed Trade authority after SOLD set changed")
  else
    match checkProvenance
        (fun _ => "cannot reverse typed Trade authority after provenance changed")
        (soldProducts s) (legacyTrades s) with
    | .error e => .error e
    | .ok () => .ok (deleteLegacy s)

/-- `_revalidate_legacy_sold`. -/
def revalidateLegacySold (s : CutoverTables) : Except CutoverError Unit :=
  if (legacyTrades s).length != (soldIds s).length ||
      !sameSet ((legacyTrades s).map (·.product)) (soldIds s) then
    .error (.runtimeError "legacy SOLD product ID mismatch at catalog authority cutover")
  else
    checkProvenance
      (fun product => "legacy SOLD provenance mismatch at catalog authority cutover: product=" ++
        toString product)
      (soldProducts s) (legacyTrades s)

/-! ## Lookups -/

variable {s s' : CutoverTables} {products : List LegacyProduct} {trades : List LegacyTrade}
  {t t' : LegacyTrade} {p p' : LegacyProduct}

/-- Two sets of ids are compared in both directions. -/
theorem sameSet_iff {a b : List Nat} : sameSet a b = true ↔ ∀ n, n ∈ a ↔ n ∈ b := by
  rw [sameSet, Bool.and_eq_true, List.all_eq_true, List.all_eq_true]
  constructor
  · rintro ⟨hab, hba⟩ n
    exact ⟨fun hn => List.contains_iff_mem.mp (hab n hn),
      fun hn => List.contains_iff_mem.mp (hba n hn)⟩
  · intro h
    exact ⟨fun n hn => List.contains_iff_mem.mpr ((h n).mp hn),
      fun n hn => List.contains_iff_mem.mpr ((h n).mpr hn)⟩

/-- The row of a product is one of the rows. -/
theorem tradeOf_some {n : Nat} (h : tradeOf trades n = some t) : t ∈ trades ∧ t.product = n := by
  have hfound := List.find?_some h
  exact ⟨List.mem_reverse.mp (List.mem_of_find?_eq_some h), beq_iff_eq.mp hfound⟩

/-- Where there is none, no row is of the product. -/
theorem tradeOf_none {n : Nat} (h : tradeOf trades n = none) (ht : t ∈ trades) : t.product ≠ n :=
  fun hn => List.find?_eq_none.mp h t (List.mem_reverse.mpr ht) (beq_iff_eq.mpr hn)

/-- The products that the filter finds. -/
theorem mem_soldProducts : p ∈ soldProducts s ↔ p ∈ s.products ∧ p.saleState = .sold := by
  rw [soldProducts, List.mem_filter, beq_iff_eq]

theorem mem_soldIds {n : Nat} : n ∈ soldIds s ↔ ∃ p ∈ soldProducts s, p.pk = n := List.mem_map

/-- The trades that the filter finds. -/
theorem mem_legacyTrades : t ∈ legacyTrades s ↔ t ∈ s.trades ∧ t.kind = .legacySold := by
  rw [legacyTrades, List.mem_filter, beq_iff_eq]

/-- A product is known by its key. -/
theorem CutoverConstraints.eq_of_pk (h : CutoverConstraints products trades) (hp : p ∈ products)
    (hp' : p' ∈ products) (hpk : p.pk = p'.pk) : p = p' :=
  List.inj_on_of_nodup_map h.keys hp hp' hpk

/-- A legacy trade is completed. -/
theorem CutoverConstraints.completed (h : CutoverConstraints products trades) (ht : t ∈ trades)
    (hkind : t.kind = .legacySold) : t.status = .completed := by
  rcases h.buyerKind t ht with hlegacy | hstandard
  · exact hlegacy.2.1
  · rw [hkind] at hstandard
    exact nomatch hstandard.1

/-- No product has two legacy trades. -/
theorem CutoverConstraints.legacy_nodup (h : CutoverConstraints products trades) :
    ((trades.filter (·.kind == .legacySold)).map (·.product)).Nodup := by
  refine h.oneLive.sublist (List.Sublist.map _ ?_)
  have hfilter : trades.filter (·.kind == .legacySold) =
      (trades.filter fun t => t.status ≠ .cancelled).filter (·.kind == .legacySold) := by
    rw [List.filter_filter]
    refine List.filter_congr fun t ht => ?_
    cases hkind : t.kind == .legacySold with
    | false => rfl
    | true =>
        rw [h.completed ht (beq_iff_eq.mp hkind)]
        rfl
  rw [hfilter]
  exact List.filter_sublist

/-- A product has one legacy trade at most. -/
theorem CutoverConstraints.legacy_eq (h : CutoverConstraints products trades) (ht : t ∈ trades)
    (ht' : t' ∈ trades) (hkind : t.kind = .legacySold) (hkind' : t'.kind = .legacySold)
    (hproduct : t.product = t'.product) : t = t' :=
  List.inj_on_of_nodup_map h.legacy_nodup (List.mem_filter.mpr ⟨ht, beq_iff_eq.mpr hkind⟩)
    (List.mem_filter.mpr ⟨ht', beq_iff_eq.mpr hkind'⟩) hproduct

/-! ## The correspondence -/

/-- A trade that matches its product is the row that is created for it. -/
theorem matches_iff (hproduct : t.product = p.pk) :
    legacyTradeMatches t p = true ↔ t = legacyRow p := by
  obtain ⟨product, seller, buyer, kind, status, completedAt⟩ := t
  obtain rfl : product = p.pk := hproduct
  simp only [legacyTradeMatches, legacyRow, Bool.and_eq_true, beq_iff_eq, LegacyTrade.mk.injEq,
    true_and, and_assoc]

/-- Every trade is that of a sold product, with its owner as the seller, no buyer, completed
    when the product was last updated; and every sold product has one. -/
structure Corresponds (products : List LegacyProduct) (trades : List LegacyTrade) : Prop where
  sold : ∀ t ∈ trades, ∃ p ∈ products, p.saleState = .sold ∧ t = legacyRow p
  one : ∀ p ∈ products, p.saleState = .sold → (trades.filter (·.product == p.pk)).length = 1

/-- A product with a trade has exactly one. -/
theorem length_filter_product {n : Nat} (hnodup : (trades.map (·.product)).Nodup)
    (ht : t ∈ trades) (hproduct : t.product = n) :
    (trades.filter (·.product == n)).length = 1 := by
  have hcount := List.count_eq_one_of_mem hnodup (List.mem_map.mpr ⟨t, ht, hproduct⟩)
  rw [List.count, List.countP_map, List.countP_eq_length_filter] at hcount
  exact hcount

/-- A sold product has its trade, -/
theorem Corresponds.exists (h : Corresponds products trades) (hp : p ∈ products)
    (hsold : p.saleState = .sold) : ∃ t ∈ trades, t.product = p.pk := by
  obtain ⟨t, ht⟩ := List.length_eq_one_iff.mp (h.one p hp hsold)
  obtain ⟨hmem, hproduct⟩ := List.mem_filter.mp (ht ▸ List.mem_singleton_self t)
  exact ⟨t, hmem, beq_iff_eq.mp hproduct⟩

/-- and every trade is a legacy one. -/
theorem Corresponds.legacy (h : Corresponds products trades) (ht : t ∈ trades) :
    t.kind = .legacySold := by
  obtain ⟨p, -, -, rfl⟩ := h.sold t ht
  rfl

/-- The trade of a sold product is the row created for it. -/
theorem Corresponds.row (h : Corresponds products trades) (hc : CutoverConstraints products trades)
    (hp : p ∈ products) (ht : t ∈ trades) (hproduct : t.product = p.pk) : t = legacyRow p := by
  obtain ⟨p', hp', -, rfl⟩ := h.sold t ht
  rw [hc.eq_of_pk hp' hp hproduct]

/-- Where all trades are legacy ones the filter is for nothing. -/
theorem legacyTrades_eq (h : ∀ t ∈ s.trades, t.kind = .legacySold) : legacyTrades s = s.trades :=
  List.filter_eq_self.mpr fun t ht => beq_iff_eq.mpr (h t ht)

/-! ## The backfill -/

/-- A trade that is accepted is added. -/
theorem createTrade_ok {row : LegacyTrade} (h : createTrade row s = .ok s') :
    s'.products = s.products ∧ s'.trades = row :: s.trades := by
  rw [createTrade] at h
  split at h
  · cases h
    exact ⟨rfl, rfl⟩
  · exact nomatch h

/-- **LOOP**: each sold product has a trade that matches, or one is created for it. -/
theorem backfillProducts_ok {existing : List LegacyTrade}
    (h : backfillProducts existing products s = .ok s') :
    s'.products = s.products ∧ ∃ new, s'.trades = new ++ s.trades ∧
      (∀ t ∈ new, ∃ p ∈ products, t = legacyRow p) ∧
      ∀ p ∈ products, (∃ t, tradeOf existing p.pk = some t ∧ legacyTradeMatches t p = true) ∨
        legacyRow p ∈ new := by
  induction products generalizing s with
  | nil =>
      cases h
      exact ⟨rfl, [], rfl, fun _ ht => (nomatch ht), fun _ hp => nomatch hp⟩
  | cons p products ih =>
      rw [backfillProducts] at h
      split at h
      · next t hexisting =>
          split at h
          · exact nomatch h
          · next hmatches =>
              rw [Bool.not_eq_true', Bool.not_eq_false] at hmatches
              obtain ⟨hproducts, new, htrades, hnew, hall⟩ := ih h
              refine ⟨hproducts, new, htrades, fun t ht => ?_, fun p' hp' => ?_⟩
              · obtain ⟨p', hp', hrow⟩ := hnew t ht
                exact ⟨p', List.mem_cons_of_mem _ hp', hrow⟩
              · rcases List.mem_cons.mp hp' with rfl | hp'
                · exact Or.inl ⟨t, hexisting, hmatches⟩
                · exact hall p' hp'
      · split at h
        · exact nomatch h
        · next s1 hcreate =>
            obtain ⟨hproducts1, htrades1⟩ := createTrade_ok hcreate
            obtain ⟨hproducts, new, htrades, hnew, hall⟩ := ih h
            refine ⟨hproducts.trans hproducts1, new ++ [legacyRow p], ?_, fun t ht => ?_,
              fun p' hp' => ?_⟩
            · rw [htrades, htrades1, List.append_assoc]
              rfl
            · rcases List.mem_append.mp ht with ht | ht
              · obtain ⟨p', hp', hrow⟩ := hnew t ht
                exact ⟨p', List.mem_cons_of_mem _ hp', hrow⟩
              · exact ⟨p, List.mem_cons_self, List.mem_singleton.mp ht⟩
            · rcases List.mem_cons.mp hp' with rfl | hp'
              · exact Or.inr (List.mem_append_right _ List.mem_cons_self)
              · rcases hall p' hp' with hmatched | hcreated
                · exact Or.inl hmatched
                · exact Or.inr (List.mem_append_left _ hcreated)

/-- **FORWARD**: what the backfill ends with. -/
theorem corresponds_of_backfill (hlegacy : ∀ t ∈ s.trades, t.kind = .legacySold)
    (h : backfillLegacySold s = .ok s') :
    s'.products = s.products ∧ Corresponds s'.products s'.trades := by
  rw [backfillLegacySold] at h
  dsimp only at h
  split at h
  · exact nomatch h
  next hexpected =>
  split at h
  · exact nomatch h
  next s1 hloop =>
  split at h
  · exact nomatch h
  next hactual =>
  cases h
  rw [Bool.not_eq_true', Bool.not_eq_false] at hexpected hactual
  obtain ⟨hproducts, new, htrades, hnew, hall⟩ := backfillProducts_ok hloop
  refine ⟨hproducts, ?_⟩
  rw [hproducts]
  have hconstraints : CutoverConstraints s.products s'.trades := hproducts ▸ s'.constraints
  have hkind : ∀ t ∈ s'.trades, t.kind = .legacySold := by
    intro t ht
    rw [htrades] at ht
    rcases List.mem_append.mp ht with ht | ht
    · obtain ⟨p, -, rfl⟩ := hnew t ht
      rfl
    · exact hlegacy t ht
  constructor
  · intro t ht
    have hmem := ht
    rw [htrades] at ht
    rcases List.mem_append.mp ht with ht | ht
    · obtain ⟨p, hp, hrow⟩ := hnew t ht
      obtain ⟨hp, hsold⟩ := mem_soldProducts.mp hp
      exact ⟨p, hp, hsold, hrow⟩
    · -- an old row: its product is sold, and it is the one that was found to match
      have hproduct : t.product ∈ soldIds s := List.contains_iff_mem.mp
        (List.all_eq_true.mp hexpected _ (List.mem_map.mpr
          ⟨t, mem_legacyTrades.mpr ⟨ht, hlegacy t ht⟩, rfl⟩))
      obtain ⟨p, hp, hpk⟩ := mem_soldIds.mp hproduct
      obtain ⟨hpmem, hsold⟩ := mem_soldProducts.mp hp
      refine ⟨p, hpmem, hsold, ?_⟩
      rcases hall p hp with ⟨t', hexisting, hmatches⟩ | hcreated
      · obtain ⟨ht', hproduct'⟩ := tradeOf_some hexisting
        have ht'mem := (List.mem_filter.mp ht').1
        have htt : t = t' := s.constraints.legacy_eq ht ht'mem (hlegacy t ht) (hlegacy t' ht'mem)
          (hpk.symm.trans hproduct'.symm)
        rw [htt]
        exact (matches_iff hproduct').mp hmatches
      · refine hconstraints.legacy_eq hmem ?_ (hlegacy t ht) rfl hpk.symm
        rw [htrades]
        exact List.mem_append_left _ hcreated
  · intro p hp hsold
    have hid : p.pk ∈ soldIds s := mem_soldIds.mpr ⟨p, mem_soldProducts.mpr ⟨hp, hsold⟩, rfl⟩
    obtain ⟨t, ht, hproduct⟩ := List.mem_map.mp ((sameSet_iff.mp hactual _).mpr hid)
    have hnodup := hconstraints.legacy_nodup
    rw [List.filter_eq_self.mpr fun t ht => beq_iff_eq.mpr (hkind t ht)] at hnodup
    exact length_filter_product hnodup (List.mem_filter.mp ht).1 hproduct

/-- The ids after the backfill are those of the sold products. -/
theorem sameSet_of_corresponds {trades' : List LegacyTrade}
    (h : Corresponds s.products trades') :
    sameSet ((trades'.filter fun t => t.kind == .legacySold && t.status == .completed).map
      (·.product)) (soldIds s) = true := by
  refine sameSet_iff.mpr fun n => ?_
  rw [List.mem_map, mem_soldIds]
  constructor
  · rintro ⟨t, ht, rfl⟩
    obtain ⟨p, hp, hsold, rfl⟩ := h.sold t (List.mem_filter.mp ht).1
    exact ⟨p, mem_soldProducts.mpr ⟨hp, hsold⟩, rfl⟩
  · rintro ⟨p, hp, rfl⟩
    obtain ⟨hp, hsold⟩ := mem_soldProducts.mp hp
    obtain ⟨t, ht, hproduct⟩ := h.exists hp hsold
    refine ⟨t, List.mem_filter.mpr ⟨ht, ?_⟩, hproduct⟩
    obtain ⟨p', -, -, rfl⟩ := h.sold t ht
    rfl

/-- The loop does nothing when every product has its trade. -/
theorem backfillProducts_matched {existing : List LegacyTrade}
    (h : ∀ p ∈ products, ∃ t, tradeOf existing p.pk = some t ∧ legacyTradeMatches t p = true) :
    backfillProducts existing products s = .ok s := by
  induction products with
  | nil => rfl
  | cons p products ih =>
      obtain ⟨t, hexisting, hmatches⟩ := h p List.mem_cons_self
      rw [backfillProducts, hexisting]
      dsimp only
      rw [hmatches]
      exact ih fun p' hp' => h p' (List.mem_cons_of_mem _ hp')

/-- **AGAIN**: the backfill changes nothing where the correspondence holds. -/
theorem backfill_of_corresponds (h : Corresponds s.products s.trades) :
    backfillLegacySold s = .ok s := by
  have hexpected : ((legacyTrades s).map (·.product)).all (soldIds s).contains = true := by
    refine List.all_eq_true.mpr fun n hn => List.contains_iff_mem.mpr ?_
    obtain ⟨t, ht, rfl⟩ := List.mem_map.mp hn
    obtain ⟨p, hp, hsold, rfl⟩ := h.sold t (mem_legacyTrades.mp ht).1
    exact mem_soldIds.mpr ⟨p, mem_soldProducts.mpr ⟨hp, hsold⟩, rfl⟩
  have hloop : backfillProducts (s.trades.filter fun t => (soldIds s).contains t.product)
      (soldProducts s) s = .ok s := by
    refine backfillProducts_matched fun p hp => ?_
    obtain ⟨hpmem, hsold⟩ := mem_soldProducts.mp hp
    obtain ⟨t, ht, hproduct⟩ := h.exists hpmem hsold
    have hexisting : t ∈ s.trades.filter fun t => (soldIds s).contains t.product := by
      refine List.mem_filter.mpr ⟨ht, List.contains_iff_mem.mpr ?_⟩
      rw [hproduct]
      exact mem_soldIds.mpr ⟨p, hp, rfl⟩
    cases hfound : tradeOf (s.trades.filter fun t => (soldIds s).contains t.product) p.pk with
    | none => exact absurd hproduct (tradeOf_none hfound hexisting)
    | some t' =>
        obtain ⟨ht', hproduct'⟩ := tradeOf_some hfound
        exact ⟨t', rfl, (matches_iff hproduct').mpr
          (h.row s.constraints hpmem (List.mem_filter.mp ht').1 hproduct')⟩
  rw [backfillLegacySold, hexpected]
  dsimp only
  rw [hloop]
  dsimp only
  rw [sameSet_of_corresponds h]
  rfl

/-- The row of a product that has no trade can be created. -/
theorem createTrade_of_free (hp : p.pk ∈ s.products.map (·.pk))
    (hfree : ∀ t ∈ s.trades, t.product ≠ p.pk) :
    ∃ s', createTrade (legacyRow p) s = .ok s' := by
  have hconstraints : CutoverConstraints s.products (legacyRow p :: s.trades) := by
    constructor
    · exact s.constraints.keys
    · intro t ht
      rcases List.mem_cons.mp ht with rfl | ht
      · exact Or.inl ⟨rfl, rfl, rfl, rfl⟩
      · exact s.constraints.buyerKind t ht
    · intro t ht
      rcases List.mem_cons.mp ht with rfl | ht
      · exact Or.inl ⟨rfl, rfl⟩
      · exact s.constraints.completedAt t ht
    · show (p.pk :: liveProducts s.trades).Nodup
      refine List.nodup_cons.mpr ⟨fun hlive => ?_, s.constraints.oneLive⟩
      obtain ⟨t, ht, hproduct⟩ := List.mem_map.mp hlive
      exact hfree t (List.mem_filter.mp ht).1 hproduct
    · intro t ht
      rcases List.mem_cons.mp ht with rfl | ht
      · exact hp
      · exact s.constraints.references t ht
  exact ⟨_, dif_pos hconstraints⟩

/-- Without a conflict every product gets its trade. -/
theorem backfillProducts_succeeds {existing : List LegacyTrade}
    (hkeys : (products.map (·.pk)).Nodup) (hrefs : ∀ p ∈ products, p.pk ∈ s.products.map (·.pk))
    (hmatches : ∀ p ∈ products, ∀ t, tradeOf existing p.pk = some t →
      legacyTradeMatches t p = true)
    (hfree : ∀ p ∈ products, tradeOf existing p.pk = none → ∀ t ∈ s.trades, t.product ≠ p.pk) :
    ∃ s', backfillProducts existing products s = .ok s' := by
  induction products generalizing s with
  | nil => exact ⟨s, rfl⟩
  | cons p products ih =>
      obtain ⟨hp, hkeys⟩ := List.nodup_cons.mp hkeys
      have hrest : ∀ {p'}, p' ∈ products → p' ∈ p :: products := List.mem_cons_of_mem p
      rw [backfillProducts]
      cases hexisting : tradeOf existing p.pk with
      | some t =>
          dsimp only
          rw [hmatches p List.mem_cons_self t hexisting]
          exact ih hkeys (fun p' hp' => hrefs p' (hrest hp'))
            (fun p' hp' => hmatches p' (hrest hp'))
            fun p' hp' => hfree p' (hrest hp')
      | none =>
          obtain ⟨s1, hcreate⟩ := createTrade_of_free (hrefs p List.mem_cons_self)
            (hfree p List.mem_cons_self hexisting)
          obtain ⟨hproducts, htrades⟩ := createTrade_ok hcreate
          dsimp only
          rw [hcreate]
          refine ih hkeys (fun p' hp' => ?_) (fun p' hp' => hmatches p' (hrest hp'))
            fun p' hp' hnone t ht => ?_
          · rw [hproducts]
            exact hrefs p' (hrest hp')
          · rw [htrades] at ht
            rcases List.mem_cons.mp ht with rfl | ht
            · -- the row that was just created is for another product
              exact fun hpk => hp (List.mem_map.mpr ⟨p', hp', hpk.symm⟩)
            · exact hfree p' (hrest hp') hnone t ht

/-- **SUCCESS**: the backfill goes through when the rows that are there match. -/
theorem backfill_succeeds
    (h : ∀ t ∈ s.trades, ∃ p ∈ s.products, p.saleState = .sold ∧ t = legacyRow p) :
    ∃ s', backfillLegacySold s = .ok s' := by
  have hids : ∀ t ∈ s.trades, t.product ∈ soldIds s := by
    intro t ht
    obtain ⟨p, hp, hsold, rfl⟩ := h t ht
    exact mem_soldIds.mpr ⟨p, mem_soldProducts.mpr ⟨hp, hsold⟩, rfl⟩
  -- the check before the loop
  have hexpected : ((legacyTrades s).map (·.product)).all (soldIds s).contains = true := by
    refine List.all_eq_true.mpr fun n hn => List.contains_iff_mem.mpr ?_
    obtain ⟨t, ht, rfl⟩ := List.mem_map.mp hn
    exact hids t (mem_legacyTrades.mp ht).1
  have hexisting : s.trades.filter (fun t => (soldIds s).contains t.product) = s.trades :=
    List.filter_eq_self.mpr fun t ht => List.contains_iff_mem.mpr (hids t ht)
  -- the loop, in which every trade that is there is the one of its product
  obtain ⟨s', hloop⟩ : ∃ s', backfillProducts s.trades (soldProducts s) s = .ok s' := by
    refine backfillProducts_succeeds ?_ (fun p hp => ?_) (fun p hp t ht => ?_) fun p _ hnone t ht =>
      tradeOf_none hnone ht
    · exact s.constraints.keys.sublist (List.Sublist.map _ List.filter_sublist)
    · exact List.mem_map_of_mem (mem_soldProducts.mp hp).1
    · obtain ⟨hmem, hproduct⟩ := tradeOf_some ht
      obtain ⟨p', hp', -, rfl⟩ := h t hmem
      rw [← s.constraints.eq_of_pk hp' (mem_soldProducts.mp hp).1 hproduct]
      exact (matches_iff rfl).mpr rfl
  obtain ⟨-, new, htrades, hnew, hall⟩ := backfillProducts_ok hloop
  have hrow : ∀ t ∈ s'.trades, ∃ p ∈ soldProducts s, t = legacyRow p := by
    intro t ht
    rw [htrades] at ht
    rcases List.mem_append.mp ht with ht | ht
    · exact hnew t ht
    · obtain ⟨p, hp, hsold, hrow⟩ := h t ht
      exact ⟨p, mem_soldProducts.mpr ⟨hp, hsold⟩, hrow⟩
  -- the check after the loop
  have hactual : sameSet ((s'.trades.filter fun t =>
      t.kind == .legacySold && t.status == .completed).map (·.product)) (soldIds s) = true := by
    refine sameSet_iff.mpr fun n => ?_
    rw [List.mem_map, mem_soldIds]
    constructor
    · rintro ⟨t, ht, rfl⟩
      obtain ⟨p, hp, rfl⟩ := hrow t (List.mem_filter.mp ht).1
      exact ⟨p, hp, rfl⟩
    · rintro ⟨p, hp, rfl⟩
      have hthere : ∃ t ∈ s'.trades, t.product = p.pk := by
        rw [htrades]
        rcases hall p hp with ⟨t, ht, -⟩ | hcreated
        · obtain ⟨hmem, hproduct⟩ := tradeOf_some ht
          exact ⟨t, List.mem_append_right _ hmem, hproduct⟩
        · exact ⟨_, List.mem_append_left _ hcreated, rfl⟩
      obtain ⟨t, ht, hproduct⟩ := hthere
      refine ⟨t, List.mem_filter.mpr ⟨ht, ?_⟩, hproduct⟩
      obtain ⟨p', -, rfl⟩ := hrow t ht
      rfl
  refine ⟨s', ?_⟩
  rw [backfillLegacySold, hexpected]
  dsimp only
  rw [hexisting, hloop]
  dsimp only
  rw [hactual]
  rfl

/-! ## Revalidation and reversal -/

/-- The loop passes exactly when every trade is the row of the product with its key. -/
theorem checkProvenance_ok (message : Nat → String) (hkeys : (products.map (·.pk)).Nodup) :
    checkProvenance message products trades = .ok () ↔
      ∀ t ∈ trades, ∃ p ∈ products, t = legacyRow p := by
  induction trades with
  | nil => exact ⟨fun _ _ ht => (nomatch ht), fun _ => rfl⟩
  | cons t trades ih =>
      rw [checkProvenance, List.forall_mem_cons]
      cases hfound : products.find? (·.pk == t.product) with
      | none =>
          constructor
          · intro h
            exact nomatch h
          · rintro ⟨⟨p, hp, rfl⟩, -⟩
            exact absurd (beq_self_eq_true p.pk) (List.find?_eq_none.mp hfound p hp)
      | some p =>
          have hpk := List.find?_some hfound
          have hp := List.mem_of_find?_eq_some hfound
          have hproduct : t.product = p.pk := (beq_iff_eq.mp hpk).symm
          dsimp only
          split
          · next hmatches =>
              rw [Bool.not_eq_true'] at hmatches
              constructor
              · intro h
                exact nomatch h
              · rintro ⟨⟨p', hp', rfl⟩, -⟩
                have hpp : p' = p := List.inj_on_of_nodup_map hkeys hp' hp hproduct
                rw [hpp, (matches_iff rfl).mpr rfl] at hmatches
                exact nomatch hmatches
          · next hmatches =>
              rw [Bool.not_eq_true', Bool.not_eq_false] at hmatches
              rw [ih]
              exact ⟨fun h => ⟨⟨p, hp, (matches_iff hproduct).mp hmatches⟩, h⟩, And.right⟩

/-- Sold products have distinct keys. -/
theorem soldProducts_keys (s : CutoverTables) : ((soldProducts s).map (·.pk)).Nodup :=
  s.constraints.keys.sublist (List.Sublist.map _ List.filter_sublist)

/-- The correspondence, in terms of the sets that the migrations compare. -/
theorem corresponds_iff : Corresponds s.products (legacyTrades s) ↔
    sameSet ((legacyTrades s).map (·.product)) (soldIds s) = true ∧
      ∀ t ∈ legacyTrades s, ∃ p ∈ soldProducts s, t = legacyRow p := by
  constructor
  · intro h
    have hrows : ∀ t ∈ legacyTrades s, ∃ p ∈ soldProducts s, t = legacyRow p := by
      intro t ht
      obtain ⟨p, hp, hsold, hrow⟩ := h.sold t ht
      exact ⟨p, mem_soldProducts.mpr ⟨hp, hsold⟩, hrow⟩
    refine ⟨sameSet_iff.mpr fun n => ?_, hrows⟩
    rw [List.mem_map, mem_soldIds]
    constructor
    · rintro ⟨t, ht, rfl⟩
      obtain ⟨p, hp, rfl⟩ := hrows t ht
      exact ⟨p, hp, rfl⟩
    · rintro ⟨p, hp, rfl⟩
      obtain ⟨hp, hsold⟩ := mem_soldProducts.mp hp
      exact h.exists hp hsold
  · rintro ⟨hsame, hrows⟩
    constructor
    · intro t ht
      obtain ⟨p, hp, hrow⟩ := hrows t ht
      obtain ⟨hp, hsold⟩ := mem_soldProducts.mp hp
      exact ⟨p, hp, hsold, hrow⟩
    · intro p hp hsold
      have hid : p.pk ∈ soldIds s := mem_soldIds.mpr ⟨p, mem_soldProducts.mpr ⟨hp, hsold⟩, rfl⟩
      obtain ⟨t, ht, hproduct⟩ := List.mem_map.mp ((sameSet_iff.mp hsame _).mpr hid)
      exact length_filter_product s.constraints.legacy_nodup ht hproduct

/-- **REVALIDATION** accepts exactly the correspondence. -/
theorem revalidate_iff :
    revalidateLegacySold s = .ok () ↔ Corresponds s.products (legacyTrades s) := by
  rw [corresponds_iff, revalidateLegacySold]
  split
  · next hrefused =>
      refine ⟨fun h => (nomatch h), fun ⟨hsame, _⟩ => ?_⟩
      -- sets of keys without repetition that are the same have the same length
      have hperm : ((legacyTrades s).map (·.product)).Perm (soldIds s) :=
        (List.perm_ext_iff_of_nodup s.constraints.legacy_nodup (soldProducts_keys s)).mpr
          (sameSet_iff.mp hsame)
      have hlength : (legacyTrades s).length = (soldIds s).length := by
        rw [← hperm.length_eq, List.length_map]
      rw [hlength, hsame] at hrefused
      simp at hrefused
  · next haccepted =>
      rw [Bool.not_eq_true, Bool.or_eq_false_iff, Bool.not_eq_false'] at haccepted
      rw [checkProvenance_ok _ (soldProducts_keys s)]
      exact ⟨fun h => ⟨haccepted.2, h⟩, And.right⟩

/-- **REVERSAL** goes through exactly from a table of legacy trades that correspond. -/
theorem reverse_iff : (∃ s', reverseLegacySold s = .ok s') ↔
    (∀ t ∈ s.trades, t.kind = .legacySold) ∧ Corresponds s.products (legacyTrades s) := by
  rw [corresponds_iff, reverseLegacySold]
  split
  · next hothers =>
      obtain ⟨t, ht, hkind⟩ := List.any_eq_true.mp hothers
      refine ⟨fun ⟨_, h⟩ => (nomatch h), fun ⟨h, _⟩ => ?_⟩
      rw [h t ht] at hkind
      exact nomatch hkind
  · next hlegacy =>
      have hkind : ∀ t ∈ s.trades, t.kind = .legacySold := by
        intro t ht
        by_contra hne
        exact hlegacy (List.any_eq_true.mpr ⟨t, ht, bne_iff_ne.mpr hne⟩)
      split
      · next hset =>
          refine ⟨fun ⟨_, h⟩ => (nomatch h), fun ⟨_, hsame, _⟩ => ?_⟩
          rw [hsame] at hset
          exact nomatch hset
      · next hset =>
          rw [Bool.not_eq_true', Bool.not_eq_false] at hset
          rw [← checkProvenance_ok
            (fun _ => "cannot reverse typed Trade authority after provenance changed")
            (soldProducts_keys s)]
          split
          · next e he =>
              refine ⟨fun ⟨_, h⟩ => (nomatch h), fun ⟨_, _, h⟩ => ?_⟩
              rw [he] at h
              exact nomatch h
          · next he => exact ⟨fun _ => ⟨hkind, hset, he⟩, fun _ => ⟨_, rfl⟩⟩

/-- What a reversal that goes through leaves. -/
theorem reverse_ok (h : reverseLegacySold s = .ok s') :
    s'.products = s.products ∧ s'.trades = [] := by
  have hkind := (reverse_iff.mp ⟨s', h⟩).1
  have hdeleted : s' = deleteLegacy s := by
    rw [reverseLegacySold] at h
    split at h
    · exact nomatch h
    · split at h
      · exact nomatch h
      · split at h
        · exact nomatch h
        · exact (Except.ok.inj h).symm
  rw [hdeleted]
  refine ⟨rfl, List.filter_eq_nil_iff.mpr fun t ht => ?_⟩
  rw [hkind t ht]
  simp

/-! ## The migration -/

/-- What succeeds is committed, -/
theorem migrate_ok {operation : CutoverTables → Except CutoverError CutoverTables}
    (h : operation s = .ok s') : migrate operation s = (.ok (), s') := by
  rw [migrate, h]

/-- and what fails changes nothing. -/
theorem migrate_error {operation : CutoverTables → Except CutoverError CutoverTables}
    (h : ¬ ∃ s', operation s = .ok s') : ∃ e, migrate operation s = (.error e, s) := by
  cases hresult : operation s with
  | ok s' => exact absurd ⟨s', hresult⟩ h
  | error e =>
      refine ⟨e, ?_⟩
      rw [migrate, hresult]

/-- The migration of some tables, and back. -/
structure LegacyMigration (s : CutoverTables) : Prop where
  /-- Forward, again and back. -/
  forward : (∀ t ∈ s.trades, t.kind = .legacySold) →
    (∃ e, migrate backfillLegacySold s = (.error e, s)) ∨
    ∃ s', migrate backfillLegacySold s = (.ok (), s') ∧ s'.products = s.products ∧
      Corresponds s'.products s'.trades ∧ migrate backfillLegacySold s' = (.ok (), s') ∧
      ∃ s'', migrate reverseLegacySold s' = (.ok (), s'') ∧ s''.products = s.products ∧
        s''.trades = []
  succeeds : (∀ t ∈ s.trades, ∃ p ∈ s.products, p.saleState = .sold ∧ t = legacyRow p) →
    ∃ s', migrate backfillLegacySold s = (.ok (), s')
  /-- The legacy trades correspond, and so the whole table if it has no others. -/
  revalidated : (revalidateLegacySold s = .ok () ↔ Corresponds s.products (legacyTrades s)) ∧
    ((∀ t ∈ s.trades, t.kind = .legacySold) → legacyTrades s = s.trades)
  refused : ((∃ t ∈ s.trades, t.kind ≠ .legacySold) ∨
      (∃ n, ¬ (n ∈ (legacyTrades s).map (·.product) ↔ n ∈ soldIds s)) ∨
      ∃ t ∈ legacyTrades s, ∃ p ∈ soldProducts s, t.product = p.pk ∧ t ≠ legacyRow p) →
    ∃ e, migrate reverseLegacySold s = (.error e, s)

/-- **LEGACY SALES** are migrated exactly, and back. -/
theorem legacy_migration (s : CutoverTables) : LegacyMigration s := by
  constructor
  case forward =>
    intro hlegacy
    by_cases hok : ∃ s', backfillLegacySold s = .ok s'
    · obtain ⟨s', hs'⟩ := hok
      obtain ⟨hproducts, hcorresponds⟩ := corresponds_of_backfill hlegacy hs'
      have hlegacy' : ∀ t ∈ s'.trades, t.kind = .legacySold := fun t ht => hcorresponds.legacy ht
      obtain ⟨s'', hs''⟩ := reverse_iff.mpr ⟨hlegacy', by
        rw [legacyTrades_eq hlegacy']
        exact hcorresponds⟩
      obtain ⟨hproducts', htrades'⟩ := reverse_ok hs''
      exact Or.inr ⟨s', migrate_ok hs', hproducts, hcorresponds,
        migrate_ok (backfill_of_corresponds hcorresponds), s'', migrate_ok hs'',
        hproducts'.trans hproducts, htrades'⟩
    · exact Or.inl (migrate_error hok)
  case succeeds =>
    intro h
    obtain ⟨s', hs'⟩ := backfill_succeeds h
    exact ⟨s', migrate_ok hs'⟩
  case revalidated => exact ⟨revalidate_iff, legacyTrades_eq⟩
  case refused =>
    intro hrefused
    refine migrate_error fun hok => ?_
    obtain ⟨hkind, hcorresponds⟩ := reverse_iff.mp hok
    obtain ⟨hsame, hrows⟩ := corresponds_iff.mp hcorresponds
    rcases hrefused with ⟨t, ht, hne⟩ | ⟨n, hn⟩ | ⟨t, ht, p, hp, hproduct, hne⟩
    · exact hne (hkind t ht)
    · exact hn (sameSet_iff.mp hsame n)
    · obtain ⟨p', hp', rfl⟩ := hrows t ht
      refine hne ?_
      rw [s.constraints.eq_of_pk (mem_soldProducts.mp hp').1 (mem_soldProducts.mp hp).1 hproduct]

/-- Two products, of which one is sold, and no trades. -/
def beforeCutover : CutoverTables where
  products := [⟨11, 1, .available, 500⟩, ⟨10, 2, .sold, 400⟩]
  trades := []
  constraints := by decide

example : (migrate backfillLegacySold beforeCutover).2.trades =
    [⟨10, 2, none, .legacySold, .completed, some 400⟩] := by decide

end Market
