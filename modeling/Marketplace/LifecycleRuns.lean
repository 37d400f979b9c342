import Marketplace.ExactlyOnce
import Marketplace.Search
import Marketplace.TradeRuns

/-! # One lifecycle for all lists

    The detail page, the search and the profile ask the trades in four different ways
    whether a product has been sold.  The answers agree as long as a product has one trade
    at most that is not cancelled, and every run of trade commands keeps it so. -/

namespace Market

open TxnProgram TxnInterleaving TxnLogic TxnProtection TxnSoundness TxnBody TxnFrames
  TxnInvariants TxnSchedule

variable {p : Platform} {w : World Store Lock Obs} {s s' : Store} {product : Nat}

/-! ## The one trade of a product -/

/-- The trades that are not cancelled have different products. -/
def OneLive (s : Store) : Prop :=
  ∀ t ∈ s.trades, ∀ t' ∈ s.trades, t.product = t'.product → t.status ≠ .cancelled →
    t'.status ≠ .cancelled → t = t'

theorem mem_lifecycleTrades {t : Trade} : t ∈ lifecycleTrades s product ↔
    t ∈ s.trades ∧ t.product = product ∧ (t.status = .reserved ∨ t.status = .completed) := by
  rw [lifecycleTrades, List.mem_filter, Bool.and_eq_true, beq_iff_eq, List.contains_iff_mem,
    List.mem_cons, List.mem_singleton]

/-- There is one at most. -/
theorem lifecycleTrades_cases (hkeys : TradeKeys s) (hone : OneLive s) :
    lifecycleTrades s product = [] ∨ ∃ t, lifecycleTrades s product = [t] := by
  cases hrows : lifecycleTrades s product with
  | nil => exact Or.inl rfl
  | cons t rows =>
      have ht : t ∈ lifecycleTrades s product := by
        rw [hrows]
        exact List.mem_cons_self
      obtain ⟨hmem, hproduct, hstatus⟩ := mem_lifecycleTrades.mp ht
      have live : ∀ {t : Trade}, t.status = .reserved ∨ t.status = .completed →
          t.status ≠ .cancelled := by
        rintro t (h | h) <;> rw [h] <;> exact nofun
      have hlength : (lifecycleTrades s product).length ≤ 1 := by
        refine length_le_one_of_key (hkeys.sublist (List.filter_sublist.map _)) (k := t.pk)
          fun t' ht' => ?_
        obtain ⟨hmem', hproduct', hstatus'⟩ := mem_lifecycleTrades.mp ht'
        rw [hone t' hmem' t hmem (hproduct'.trans hproduct.symm) (live hstatus') (live hstatus)]
      rw [hrows, List.length_cons] at hlength
      have hnil : rows = [] := List.length_eq_zero_iff.mp (by omega)
      exact Or.inr ⟨t, by rw [hnil]⟩

/-- No order of the rows matters. -/
theorem RowOrder.first_eq (o : RowOrder) {rows : List Trade}
    (h : rows = [] ∨ ∃ t, rows = [t]) : o.first rows = rows.head? := by
  rw [RowOrder.first]
  rcases h with rfl | ⟨t, rfl⟩
  · rw [(o.perm []).eq_nil]
  · rw [List.perm_singleton.mp (o.perm [t])]

/-- What the status of its one trade says of a product. -/
def ProductState.ofStatus : Option TradeStatus → ProductState
  | some .completed => .sold
  | some .reserved => .reserved
  | _ => .available

/-- What the trades say of a product. -/
def stateOf (s : Store) (product : Nat) : ProductState :=
  .ofStatus ((lifecycleTrades s product).head?.map (·.status))

theorem ofStatus_sold (status : Option TradeStatus) :
    ProductState.ofStatus status = .sold ↔ status = some .completed := by
  rcases status with _ | (_ | _ | _) <;> decide

theorem hasCompletedTrade_iff :
    hasCompletedTrade s product = true ↔
      ∃ t ∈ lifecycleTrades s product, t.status = .completed := by
  rw [hasCompletedTrade, List.any_eq_true]
  constructor
  · rintro ⟨t, ht, h⟩
    obtain ⟨hproduct, hstatus⟩ := (Bool.and_eq_true _ _).mp h
    exact ⟨t, mem_lifecycleTrades.mpr ⟨ht, beq_iff_eq.mp hproduct, Or.inr (beq_iff_eq.mp hstatus)⟩,
      beq_iff_eq.mp hstatus⟩
  · rintro ⟨t, ht, hstatus⟩
    obtain ⟨hmem, hproduct, -⟩ := mem_lifecycleTrades.mp ht
    exact ⟨t, hmem, by rw [hproduct, hstatus, beq_self_eq_true]; rfl⟩

/-- The answers of the detail page, of the search and its filter, and of the profile and its
    filter, for whatever orders the database reads the trades in. -/
structure ProjectionsAgree (s : Store) (product : Nat) (state : ProductState) : Prop where
  detail : ∀ o : RowOrder, effectiveProductState o s product = state
  unannotated : ∀ o : RowOrder, attachEffectiveState o s product none = state
  label : ∀ o o' : RowOrder,
    attachEffectiveState o s product (some (lifecycleStatus o' s product)) = state
  searchSold : SearchStatus.sold.admits (hasCompletedTrade s product) = true ↔ state = .sold
  searchAvailable : SearchStatus.available.admits (hasCompletedTrade s product) = true ↔
    state ≠ .sold
  profileSold : ∀ o : RowOrder,
    ProfileProductFilter.sold.admits (lifecycleStatus o s product) = true ↔ state = .sold
  profileAvailable : ∀ o : RowOrder,
    ProfileProductFilter.available.admits (lifecycleStatus o s product) = true ↔ state ≠ .sold

/-- **ONE ANSWER**: they agree as soon as a product has one trade at most that is not
    cancelled. -/
theorem projectionsAgree (hkeys : TradeKeys s) (hone : OneLive s) (product : Nat) :
    ProjectionsAgree s product (stateOf s product) := by
  have hcases : lifecycleTrades s product = [] ∨ ∃ t, lifecycleTrades s product = [t] :=
    lifecycleTrades_cases hkeys hone
  have hcompleted : hasCompletedTrade s product = true ↔ stateOf s product = .sold := by
    rw [hasCompletedTrade_iff, stateOf, ofStatus_sold]
    rcases hcases with hrows | ⟨t, hrows⟩
    · rw [hrows]
      exact ⟨fun ⟨_, h, _⟩ => (nomatch h), fun h => nomatch h⟩
    · rw [hrows]
      constructor
      · rintro ⟨t', ht', hstatus⟩
        rw [List.mem_singleton.mp ht'] at hstatus
        exact congrArg some hstatus
      · exact fun h => ⟨t, List.mem_singleton_self t, Option.some.inj h⟩
  rw [stateOf] at hcompleted ⊢
  have hfirst : ∀ o : RowOrder, o.first (lifecycleTrades s product) =
      (lifecycleTrades s product).head? := fun o => o.first_eq hcases
  -- from here on, only the status of the first row counts
  constructor
  case searchSold =>
    rw [← hcompleted]
    exact beq_iff_eq
  case searchAvailable =>
    rw [ne_eq, ← hcompleted, Bool.not_eq_true]
    exact beq_iff_eq
  all_goals
    intros
    simp only [attachEffectiveState, effectiveProductState, lifecycleStatus, hfirst]
    generalize (lifecycleTrades s product).head?.map (·.status) = status
    rcases status with _ | (_ | _ | _) <;> decide

/-- The same search with another status. -/
def ProductSearch.withStatus (search : ProductSearch) (status : SearchStatus) : ProductSearch :=
  { search with status := status }

/-- The results of one status are those of both, and the two have none in common. -/
structure StatusesDivide (x : SearchContext) (t : Time) (s : Store) (search : ProductSearch) :
    Prop where
  disjoint : ∀ r ∈ searchQueryset x t s (search.withStatus .available),
    r ∉ searchQueryset x t s (search.withStatus .sold)
  together : ∀ r, r ∈ searchQueryset x t s (search.withStatus .all) ↔
    r ∈ searchQueryset x t s (search.withStatus .available) ∨
      r ∈ searchQueryset x t s (search.withStatus .sold)
  count : (searchQueryset x t s (search.withStatus .all)).length =
    (searchQueryset x t s (search.withStatus .available)).length +
      (searchQueryset x t s (search.withStatus .sold)).length

theorem mem_searchQueryset {x : SearchContext} {t : Time} {search : ProductSearch}
    {status : SearchStatus} {r : Product} :
    r ∈ searchQueryset x t s (search.withStatus status) ↔
      (r ∈ visibleProducts t s (s.products.filter (·.archivedAt.isNone)) ∧
        search.admits x r = true) ∧ status.admits (hasCompletedTrade s r.pk) = true := by
  rw [searchQueryset, List.mem_filter, Bool.and_eq_true, and_assoc]
  rfl

theorem statusesDivide (x : SearchContext) (t : Time) (s : Store) (search : ProductSearch) :
    StatusesDivide x t s search := by
  refine ⟨fun r hr hr' => ?_, fun r => ?_, ?_⟩
  · have h := (mem_searchQueryset.mp hr).2
    rw [SearchStatus.admits, beq_iff_eq.mp (mem_searchQueryset.mp hr').2] at h
    exact nomatch h
  · rw [mem_searchQueryset, mem_searchQueryset, mem_searchQueryset, ← and_or_left]
    refine and_congr_right fun _ => ?_
    cases hasCompletedTrade s r.pk <;> decide
  · generalize hrows : (visibleProducts t s (s.products.filter (·.archivedAt.isNone))).filter
      (search.admits x) = rows
    have hstatus : ∀ status : SearchStatus, searchQueryset x t s (search.withStatus status) =
        rows.filter fun r => status.admits (hasCompletedTrade s r.pk) := by
      intro status
      rw [← hrows, List.filter_filter]
      refine List.filter_congr fun r _ => ?_
      exact Bool.and_comm _ _
    have hall := hstatus .all
    have havailable := hstatus .available
    have hsold := hstatus .sold
    simp only [SearchStatus.admits, beq_true, beq_false, List.filter_true] at hall havailable hsold
    rw [hall, havailable, hsold, Nat.add_comm]
    exact List.length_eq_length_filter_add _

/-! ## Every run -/

/-- The trades and their history are left alone. -/
structure TradesQuiet (s s' : Store) : Prop where
  trades : s'.trades = s.trades
  history : s'.tradeHistory = s.tradeHistory

theorem TradeInv.quiet (h : TradeInv s) (hk : Keeps s s') (hq : TradesQuiet s s') :
    TradeInv s' := by
  obtain ⟨htrades, hhistory⟩ := hq
  have hrows : ∀ n, historyOf n s' = historyOf n s := fun n => by
    rw [historyOf, historyOf, hhistory]
  refine ⟨?_, ?_, ?_, ?_, ?_, ?_, ?_, ?_⟩
  · rw [TradeKeys, htrades]
    exact h.keys
  · rw [htrades]
    exact h.live
  · rw [htrades]
    intro t ht hkind
    rw [hrows]
    exact h.chain t ht hkind
  · rw [htrades, hhistory]
    exact h.history
  · rw [htrades]
    exact h.completedAt
  · rw [htrades]
    exact fun t ht => hk.products.subset (h.owner t ht)
  · rw [htrades]
    exact h.distinct
  · rw [htrades]
    exact h.legacy

/-- Any transactions that follow the locking rules and leave the trades alone. -/
def TradesForeign (p : Platform) (m : M Unit) : Prop :=
  Top (market p ⟨fun _ _ => True, fun _ => TradesQuiet⟩ (fun _ _ _ => True)
    fun _ _ _ => True) m

/-- What a session runs: a command, or something else. -/
inductive LifecycleOp (p : Platform) where
  | command (c : TradeCommand)
  | other (m : M Unit) (h : TradesForeign p m)

def LifecycleOp.run : LifecycleOp p → M Unit
  | .command c => do
      let _ ← c.run
      return ()
  | .other m _ => m

/-- The context of sessions that keep the invariant of the trades. -/
def tradesCtx (p : Platform) : Ctx Store Lock Exn Obs :=
  under (market p ⟨fun _ _ => True, fun _ _ _ => True⟩ (fun _ _ _ => True) fun _ _ _ => True)
    TradeInv

def LifecycleOp.ctx : LifecycleOp p → Ctx Store Lock Exn Obs
  | .command c => c.ctx (tradesCtx p)
  | .other _ _ => tradesCtx p

theorem tradesCtx_abides (p : Platform) : Abides p (tradesCtx p) :=
  under_abides (market_abides (everyWrite_lawful _) fun _ _ => trivial) _

@[simp] theorem LifecycleOp.ctx_guar (op : LifecycleOp p) :
    op.ctx.guar = (tradesCtx p).guar := by
  cases op with
  | command c => exact c.ctx_guar _
  | other _ _ => rfl

@[simp] theorem LifecycleOp.ctx_given (op : LifecycleOp p) :
    op.ctx.given = (tradesCtx p).given := by
  cases op with
  | command c => exact c.ctx_given _
  | other _ _ => rfl

theorem lifecycleOps_fits {ι : Type} (ops : ι → LifecycleOp p) :
    Fits (postgres fun _ _ => False) (fun i => (ops i).ctx) := by
  refine fits_loosen (Γ := fun _ => tradesCtx p) (fits_under (market_fits p _
    (fun _ => everyWrite_lawful _) _ _) fun _ _ h => False.elim h) fun i => ?_
  cases ops i with
  | command c => exact c.ctx_cases _
  | other _ _ => exact Or.inl rfl

/-- What leaves the trades alone is fine among sessions that keep their invariant. -/
theorem tradesForeign_joins (p : Platform) :
    Joins (market p ⟨fun _ _ => True, fun _ => TradesQuiet⟩ (fun _ _ _ => True) fun _ _ _ => True)
      (market p ⟨fun _ _ => True, fun _ => TradesQuiet⟩ (fun _ _ _ => True) fun _ _ _ => True)
      (tradesCtx p) where
  deferred := ⟨rfl, rfl⟩
  fault _ h := ⟨h, h⟩
  rely _ _ _ h := ⟨h.1, h.1⟩
  guar _ _ _ h _ := ⟨⟨h.1, trivial, trivial⟩, fun hi => hi.quiet h.1.1 h.2.2⟩
  given _ _ _ h := ⟨h, h⟩
  shown _ _ _ h _ := h

theorem wp_lifecycleOp (op : LifecycleOp p) (hi : Idle w) (h : TradeInv w.db) :
    wp op.ctx op.run (fun _ _ => True) w := by
  cases op with
  | command c =>
      refine wp_bind (wp_mono (Q := fun _ _ => True) ?_ ?_)
      · rintro (e | r) w' -
        · trivial
        · trivial
      · refine wp_tradeCommand (I := TradeInv) (tradesCtx_abides p) (fun _ _ _ h => h.1)
          (under_steady _ _) (fun _ h => h.keys) (fun _ _ _ _ _ _ _ _ => trivial) c hi h
          (fun _ _ _ _ _ => trivial) fun r w2 _ _ hrespects hdone => ?_
        have hanswer : Answered c r w2.db w2.view := hdone.answered
        exact ⟨⟨⟨hrespects, trivial, trivial⟩, hanswer.step.inv⟩, trivial⟩
  | other m hm => exact wp_mono (fun _ _ _ => trivial) (hm.within (tradesForeign_joins p) w hi)

/-- The trades of every store reached are as they should be. -/
theorem tradeInv_reached {ι : Type} [DecidableEq ι] {ops : ι → LifecycleOp p} {now : Time}
    {c : Config ι Store Lock Exn Obs Unit} (h : TradeInv s)
    (hr : Reached s now (fun i => (ops i).run) c) : TradeInv c.db := by
  have hfit := lifecycleOps_fits ops
  have hsup : Supported (fun i => (ops i).ctx) (fun _ _ _ => True)
      (Config.start s now fun i => (ops i).run) :=
    supported_start hfit.lawful fun i => wp_lifecycleOp (ops i) ⟨rfl, rfl, rfl⟩ h
  refine run_onward hfit hsup (fun _ _ _ h => False.elim h) (fun i held s s' hi hg => ?_)
    (Reaches.refl _ _) hr (fun i _ _ _ _ => ?_) h
  · rw [LifecycleOp.ctx_guar] at hg
    exact hg.2 hi
  · show ((ops i).ctx).given _ _ _
    rw [LifecycleOp.ctx_given]
    trivial

/-- **PROJECTIONS**: in every store that trade commands and others reach from the migrated
    trades, all lists give one answer for each product, and the two statuses of a search
    divide its results. -/
theorem projections_agree {ι : Type} [DecidableEq ι] {ops : ι → LifecycleOp p} {now : Time}
    {c : Config ι Store Lock Exn Obs Unit} (h : Migrated s)
    (hr : Reached s now (fun i => (ops i).run) c) :
    (∀ product, ProjectionsAgree c.db product (stateOf c.db product)) ∧
    ∀ (x : SearchContext) (t : Time) (search : ProductSearch), StatusesDivide x t c.db search := by
  have hinv := tradeInv_reached h.inv hr
  exact ⟨fun product => projectionsAgree hinv.keys hinv.live product,
    fun x t search => statusesDivide x t c.db search⟩

def reserveAndCompleteOps (i : Fin 2) : LifecycleOp plainPlatform :=
  .command (reserveAndComplete i)

/-- A product that has been bought is sold for all lists. -/
theorem projections_agree_bought :
    ∃ c : Config (Fin 2) Store Lock Exn Obs Unit,
      Reached soldAndForSale 1000 (fun i => (reserveAndCompleteOps i).run) c ∧
      stateOf c.db 11 = .sold ∧ ProjectionsAgree c.db 11 (stateOf c.db 11) := by
  have hplay : (play validateBalancedJournal [.run 0 100 fun _ => 7, .run 1 100 id]
      (Config.start (V := Obs) soldAndForSale 1000 fun i => (reserveAndCompleteOps i).run)).map
        (fun d => stateOf d.db 11) = some .sold := by decide +kernel
  obtain ⟨c, hr, hsold⟩ := reaches_of_play (D := postgres fun _ _ => False)
    (f := fun d => _) hplay
  exact ⟨c, hr, hsold, (projections_agree (by decide) hr).1 11⟩

end Market
