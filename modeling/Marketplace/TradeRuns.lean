import Mathlib.Data.List.Basic
import Marketplace.TradeSpecs
import Marketplace.TxnSchedule

/-! # The lifecycle of trades in every run

    Reservations, cancellations and completions by any number of actors, in any
    interleaving.  `TradeInv` is what every store reached satisfies, `Commanded` what a
    command does to a store when it does something, and `TradesOnward` how two stores of
    one run are related. -/

namespace Market

open TxnProgram TxnInterleaving TxnLogic TxnProtection TxnSoundness TxnBody TxnFrames
  TxnInvariants TxnSchedule

variable {p : Platform} {Γ : Ctx Store Lock Exn Obs} {w w' : World Store Lock Obs}
  {held : List Lock} {s s' : Store}

/-! ## The invariant -/

/-- The primary key of the trades. -/
def TradeKeys (s : Store) : Prop := (s.trades.map (·.pk)).Nodup

instance (s : Store) : Decidable (TradeKeys s) :=
  inferInstanceAs (Decidable (s.trades.map (·.pk)).Nodup)

/-- A trade is known by its key. -/
theorem TradeKeys.eq (hk : TradeKeys s) {t t' : Trade} (ht : t ∈ s.trades) (ht' : t' ∈ s.trades)
    (h : t.pk = t'.pk) : t = t' := List.inj_on_of_nodup_map hk ht ht' h

/-- One chain of status changes, up to a version and a status: the first from nothing to
    `RESERVED`, and each from the status that the one before it went to. -/
inductive Chain : List TradeStatusHistory → Nat → TradeStatus → Prop where
  | first (h : TradeStatusHistory) : h.fromStatus = none → h.toStatus = .reserved →
      h.version = 1 → Chain [h] 1 .reserved
  | next (rows : List TradeStatusHistory) (version : Nat) (status : TradeStatus)
      (h : TradeStatusHistory) : Chain rows version status → h.fromStatus = some status →
      h.version = version + 1 → Chain (rows ++ [h]) (version + 1) h.toStatus

/-- The history rows of a trade, in the order of their insertion. -/
def historyOf (n : Nat) (s : Store) : List TradeStatusHistory :=
  s.tradeHistory.filter (·.trade == n)

/-- Who may have made a change of the trade. -/
def TradeStatusHistory.Authorized (h : TradeStatusHistory) (t : Trade) : Prop :=
  (h.toStatus = .completed → h.actor = t.seller) ∧ (h.toStatus = .cancelled → t.HasParty h.actor)

/-- The trades of a store and their history. -/
structure TradeInv (s : Store) : Prop where
  keys : TradeKeys s
  live : ∀ t ∈ s.trades, ∀ t' ∈ s.trades, t.product = t'.product → t.status ≠ .cancelled →
    t'.status ≠ .cancelled → t = t'
  chain : ∀ t ∈ s.trades, t.kind = .standard → Chain (historyOf t.pk s) t.version t.status
  history : ∀ h ∈ s.tradeHistory, ∃ t ∈ s.trades, t.pk = h.trade ∧ h.Authorized t
  completedAt : ∀ t ∈ s.trades, t.completedAt.isSome = true ↔ t.status = .completed
  owner : ∀ t ∈ s.trades, (t.product, t.seller) ∈ s.products.map Product.identity
  distinct : ∀ t ∈ s.trades, t.buyer ≠ some t.seller
  legacy : ∀ t ∈ s.trades, t.kind = .legacySold → t.status = .completed

/-- The trades that the migration made of the products that had been sold. -/
structure Migrated (s : Store) : Prop where
  keys : TradeKeys s
  once : (s.trades.map (·.product)).Nodup
  sold : ∀ t ∈ s.trades, t.kind = .legacySold ∧ t.status = .completed ∧ t.buyer = none ∧
    t.completedAt.isSome = true ∧ (t.product, t.seller) ∈ s.products.map Product.identity
  history : s.tradeHistory = []

instance (s : Store) : Decidable (Migrated s) :=
  decidable_of_iff (TradeKeys s ∧ (s.trades.map (·.product)).Nodup ∧
    (∀ t ∈ s.trades, t.kind = .legacySold ∧ t.status = .completed ∧ t.buyer = none ∧
      t.completedAt.isSome = true ∧ (t.product, t.seller) ∈ s.products.map Product.identity) ∧
    s.tradeHistory = [])
    ⟨fun ⟨h1, h2, h3, h4⟩ => ⟨h1, h2, h3, h4⟩, fun h => ⟨h.keys, h.once, h.sold, h.history⟩⟩

/-- What the migration left meets the invariant. -/
theorem Migrated.inv (h : Migrated s) : TradeInv s where
  keys := h.keys
  live t ht t' ht' hp _ _ := List.inj_on_of_nodup_map h.once ht ht' hp
  chain t ht hkind := by
    rw [(h.sold t ht).1] at hkind
    exact nomatch hkind
  history x hx := by
    rw [h.history] at hx
    exact nomatch hx
  completedAt t ht := by
    obtain ⟨-, hs, -, hc, -⟩ := h.sold t ht
    exact ⟨fun _ => hs, fun _ => hc⟩
  owner t ht := (h.sold t ht).2.2.2.2
  distinct t ht := by
    rw [(h.sold t ht).2.2.1]
    exact nofun
  legacy t ht _ := (h.sold t ht).2.1

/-! ## What a command does -/

/-- A change of the store by a command: a reservation of a product that no other trade
    than cancelled ones is about, or the end of a reserved trade. -/
inductive Commanded : TradeCommand → Store → Store → Prop where
  | opened (actor n : Nat) (x : Product) (s : Store) : x ∈ s.products → x.owner ≠ actor →
      (∀ t ∈ s.trades, t.pk ≠ n) →
      (∀ t ∈ s.trades, t.product = x.pk → t.status = .cancelled) →
      Commanded (.reserve actor x.pk) s
        (addTradeHistory (historyRow (reservation n actor x) none actor)
          (addTrade (reservation n actor x) s))
  | ended (c : TradeCommand) (actor : Nat) (t : Trade) (status : TradeStatus)
      (expectedVersion : Option Int) (stamp : Trade → Trade) (s : Store) :
      MayEnd c actor t status expectedVersion →
      expectedVersion.all (· == (t.version : Int)) = true → t ∈ s.trades →
      t.status = .reserved → Stamps status stamp →
      Commanded c s (endWrites t status stamp actor s)

/-- The command has been done before. -/
def Repeated (s : Store) : TradeCommand → Prop
  | .reserve actor product =>
      ∃ t ∈ s.trades, t.product = product ∧ t.status = .reserved ∧ t.buyer = some actor
  | .cancel _ trade _ => ∃ t ∈ s.trades, t.pk = trade ∧ t.status = .cancelled
  | .complete _ trade _ => ∃ t ∈ s.trades, t.pk = trade ∧ t.status = .completed

/-- A command that is repeated does nothing. -/
theorem Commanded.not_repeated {c : TradeCommand} (h : Commanded c s s') (hk : TradeKeys s) :
    ¬ Repeated s c := by
  cases h with
  | opened actor n x _ hx hne hpk hfree =>
      rintro ⟨t, ht, hproduct, hs, -⟩
      rw [hfree t ht hproduct] at hs
      exact nomatch hs
  | ended _ actor t status expectedVersion stamp _ hmay _ ht hs hstamp =>
      -- the trade of the command is the one that is still reserved
      have other : ∀ x ∈ s.trades, x.pk = t.pk → x.status = .reserved := by
        intro x hx hpk
        rw [hk.eq hx ht hpk]
        exact hs
      cases hmay with
      | cancel _ _ _ _ =>
          rintro ⟨x, hx, hpk, hs'⟩
          rw [other x hx hpk] at hs'
          exact nomatch hs'
      | complete _ _ =>
          rintro ⟨x, hx, hpk, hs'⟩
          rw [other x hx hpk] at hs'
          exact nomatch hs'

/-! ## The invariant is kept -/

/-- To end a trade keeps who trades what. -/
@[simp] theorem endedTrade_identity {status : TradeStatus} {stamp : Trade → Trade}
    (h : Stamps status stamp) (version : Nat) (r : Trade) :
    (endedTrade version status stamp r).identity = r.identity := by
  cases h <;> rfl

/-- It has the status that it was given, -/
theorem endedTrade_status {status : TradeStatus} {stamp : Trade → Trade}
    (h : Stamps status stamp) (version : Nat) (r : Trade) :
    (endedTrade version status stamp r).status = status := by
  cases h <;> rfl

/-- and the next version. -/
theorem endedTrade_version {status : TradeStatus} {stamp : Trade → Trade}
    (h : Stamps status stamp) (version : Nat) (r : Trade) :
    (endedTrade version status stamp r).version = version + 1 := by
  cases h <;> rfl

/-- A stamped status is the end of a trade. -/
theorem Stamps.final {status : TradeStatus} {stamp : Trade → Trade} (h : Stamps status stamp) :
    status ≠ .reserved := by
  cases h <;> exact nofun

/-- The time of completion is set with the status. -/
theorem Stamps.completedAt {status : TradeStatus} {stamp : Trade → Trade}
    (h : Stamps status stamp) {r : Trade} (hr : r.completedAt = none) (version : Nat) :
    (endedTrade version status stamp r).completedAt.isSome = true ↔ status = .completed := by
  cases h with
  | cancelled =>
      show r.completedAt.isSome = true ↔ _
      rw [hr]
      exact ⟨nofun, nofun⟩
  | completed now => exact ⟨fun _ => rfl, fun _ => rfl⟩

/-- The one trade is rewritten. -/
theorem endWrites_trades (t : Trade) (status : TradeStatus) (stamp : Trade → Trade) (actor : Nat)
    (s : Store) : (endWrites t status stamp actor s).trades = s.trades.map fun r =>
      if r.pk = t.pk then endedTrade t.version status stamp r else r := rfl

/-- A trade after the end of another, or of itself. -/
theorem mem_endWrites {t : Trade} (hk : TradeKeys s) (ht : t ∈ s.trades) {status : TradeStatus}
    {stamp : Trade → Trade} {actor : Nat} {x : Trade}
    (hx : x ∈ (endWrites t status stamp actor s).trades) :
    x = endedTrade t.version status stamp t ∨ (x ∈ s.trades ∧ x.pk ≠ t.pk) := by
  rw [endWrites_trades] at hx
  obtain ⟨r, hr, rfl⟩ := List.mem_map.mp hx
  by_cases hpk : r.pk = t.pk
  · rw [if_pos hpk, hk.eq hr ht hpk]
    exact Or.inl rfl
  · rw [if_neg hpk]
    exact Or.inr ⟨hr, hpk⟩

/-- The trades keep their keys. -/
theorem endWrites_keys {t : Trade} {status : TradeStatus} {stamp : Trade → Trade}
    (h : Stamps status stamp) (actor : Nat) (s : Store) :
    (endWrites t status stamp actor s).trades.map Trade.identity = s.trades.map Trade.identity := by
  rw [endWrites_trades]
  refine map_identity fun r => ?_
  split
  · exact endedTrade_identity h _ r
  · rfl

/-- The keys are a part of the identities. -/
theorem tradeKeys_of_identity (h : s'.trades.map Trade.identity = s.trades.map Trade.identity)
    (hk : TradeKeys s) : TradeKeys s' := by
  have hpk : ∀ l : List Trade, l.map (·.pk) = (l.map Trade.identity).map Prod.fst := fun l => by
    rw [List.map_map]
    rfl
  rw [TradeKeys, hpk, h, ← hpk]
  exact hk

/-- The row of the history is of the trade. -/
theorem historyRow_trade (t : Trade) (oldStatus : Option TradeStatus) (actor : Nat) :
    (historyRow t oldStatus actor).trade = t.pk := rfl

/-- The history of a trade after a row about it. -/
theorem historyOf_self {n : Nat} {h : TradeStatusHistory} (hn : h.trade = n) (s : Store) :
    historyOf n (addTradeHistory h s) = historyOf n s ++ [h] := by
  have hkeep : (h.trade == n) = true := beq_iff_eq.mpr hn
  show (s.tradeHistory ++ [h]).filter (·.trade == n) = _
  rw [List.filter_append, List.filter_cons, if_pos hkeep, List.filter_nil]
  rfl

/-- The history of a trade after a row about another. -/
theorem historyOf_other {n : Nat} {h : TradeStatusHistory} (hn : h.trade ≠ n) (s : Store) :
    historyOf n (addTradeHistory h s) = historyOf n s := by
  have hdrop : ¬ (h.trade == n) = true := fun hc => hn (eq_of_beq hc)
  show (s.tradeHistory ++ [h]).filter (·.trade == n) = _
  rw [List.filter_append, List.filter_cons, if_neg hdrop, List.filter_nil, List.append_nil]
  rfl

/-- **STEP**, a reservation. -/
theorem TradeInv.opened (h : TradeInv s) {actor n : Nat} {x : Product} (hx : x ∈ s.products)
    (hne : x.owner ≠ actor) (hpk : ∀ t ∈ s.trades, t.pk ≠ n)
    (hfree : ∀ t ∈ s.trades, t.product = x.pk → t.status = .cancelled) :
    TradeInv (addTradeHistory (historyRow (reservation n actor x) none actor)
      (addTrade (reservation n actor x) s)) := by
  have hmem : ∀ t ∈ s.trades ++ [reservation n actor x],
      t ∈ s.trades ∨ t = reservation n actor x := fun t ht => by
    rw [List.mem_append, List.mem_singleton] at ht
    exact ht
  -- a new trade has no history yet
  have hempty : historyOf n s = [] := by
    refine List.filter_eq_nil_iff.mpr fun r hr hc => ?_
    obtain ⟨t, ht, htpk, -⟩ := h.history r hr
    exact hpk t ht (htpk.trans (eq_of_beq hc))
  exact {
    keys := by
      show ((s.trades ++ [reservation n actor x]).map (·.pk)).Nodup
      rw [List.map_append, List.map_singleton, List.nodup_append]
      refine ⟨h.keys, List.nodup_singleton _, fun m hm k hk => ?_⟩
      obtain ⟨t, ht, rfl⟩ := List.mem_map.mp hm
      rw [List.mem_singleton.mp hk]
      exact hpk t ht
    live := by
      intro t ht t' ht' hproduct hs hs'
      rcases hmem t ht with ht | rfl
      · rcases hmem t' ht' with ht' | rfl
        · exact h.live t ht t' ht' hproduct hs hs'
        · -- an older trade of the product has been cancelled
          exact absurd (hfree t ht hproduct) hs
      · rcases hmem t' ht' with ht' | rfl
        · exact absurd (hfree t' ht' hproduct.symm) hs'
        · rfl
    chain := by
      intro t ht hkind
      rcases hmem t ht with ht | rfl
      · rw [historyOf_other fun hc => hpk t ht hc.symm]
        exact h.chain t ht hkind
      · have hnew :
            historyOf (reservation n actor x).pk (addTrade (reservation n actor x) s) = [] := hempty
        rw [historyOf_self (historyRow_trade _ _ _), hnew]
        exact .first _ rfl rfl rfl
    history := by
      intro r hr
      rcases List.mem_append.mp hr with hr | hr
      · obtain ⟨t, ht, htpk, hauth⟩ := h.history r hr
        exact ⟨t, List.mem_append_left _ ht, htpk, hauth⟩
      · rw [List.mem_singleton.mp hr]
        exact ⟨_, List.mem_append_right _ List.mem_cons_self, rfl, nofun, nofun⟩
    completedAt := by
      intro t ht
      rcases hmem t ht with ht | rfl
      · exact h.completedAt t ht
      · exact ⟨nofun, nofun⟩
    owner := by
      intro t ht
      rcases hmem t ht with ht | rfl
      · exact h.owner t ht
      · exact List.mem_map.mpr ⟨x, hx, rfl⟩
    distinct := by
      intro t ht
      rcases hmem t ht with ht | rfl
      · exact h.distinct t ht
      · exact fun hc => hne (Option.some.inj hc).symm
    legacy := by
      intro t ht hkind
      rcases hmem t ht with ht | rfl
      · exact h.legacy t ht hkind
      · exact nomatch hkind }

/-- **STEP**, the end of a trade. -/
theorem TradeInv.ended (h : TradeInv s) {c : TradeCommand} {actor : Nat} {t : Trade}
    {status : TradeStatus} {expectedVersion : Option Int} {stamp : Trade → Trade}
    (hmay : MayEnd c actor t status expectedVersion) (ht : t ∈ s.trades)
    (hs : t.status = .reserved) (hstamp : Stamps status stamp) :
    TradeInv (endWrites t status stamp actor s) := by
  have hid : (endedTrade t.version status stamp t).identity = t.identity :=
    endedTrade_identity hstamp _ t
  have hpk : (endedTrade t.version status stamp t).pk = t.pk := congrArg Prod.fst hid
  have hproduct : (endedTrade t.version status stamp t).product = t.product :=
    congrArg (·.2.1) hid
  have hseller : (endedTrade t.version status stamp t).seller = t.seller :=
    congrArg (·.2.2.1) hid
  have hbuyer : (endedTrade t.version status stamp t).buyer = t.buyer :=
    congrArg (·.2.2.2.1) hid
  have hkind : (endedTrade t.version status stamp t).kind = t.kind := congrArg (·.2.2.2.2) hid
  have hnone : t.completedAt = none := by
    cases hc : t.completedAt with
    | none => rfl
    | some now =>
        have hdone := (h.completedAt t ht).mp (by rw [hc]; rfl)
        rw [hs] at hdone
        exact nomatch hdone
  have hmem : ∀ x ∈ (endWrites t status stamp actor s).trades,
      x = endedTrade t.version status stamp t ∨ (x ∈ s.trades ∧ x.pk ≠ t.pk) :=
    fun x hx => mem_endWrites h.keys ht hx
  have hhere : endedTrade t.version status stamp t ∈ (endWrites t status stamp actor s).trades := by
    rw [endWrites_trades]
    exact List.mem_map.mpr ⟨t, ht, if_pos rfl⟩
  have hstays : ∀ x ∈ s.trades, x.pk ≠ t.pk → x ∈ (endWrites t status stamp actor s).trades := by
    intro x hx hne
    rw [endWrites_trades]
    exact List.mem_map.mpr ⟨x, hx, if_neg hne⟩
  exact {
    keys := tradeKeys_of_identity (endWrites_keys hstamp actor s) h.keys
    live := by
      -- the trade that ended was the live one of its product
      have alone : ∀ x ∈ s.trades, x.pk ≠ t.pk → t.product = x.product →
          x.status = .cancelled := by
        intro x hx hne hp
        refine Decidable.byContradiction fun hlive => hne ?_
        rw [h.live t ht x hx hp (by rw [hs]; decide) hlive]
      intro x hx y hy hp hsx hsy
      rcases hmem x hx with rfl | ⟨hx, hnex⟩
      · rcases hmem y hy with rfl | ⟨hy, hney⟩
        · rfl
        · rw [hproduct] at hp
          exact absurd (alone y hy hney hp) hsy
      · rcases hmem y hy with rfl | ⟨hy, hney⟩
        · rw [hproduct] at hp
          exact absurd (alone x hx hnex hp.symm) hsx
        · exact h.live x hx y hy hp hsx hsy
    chain := by
      intro x hx hxkind
      show Chain (historyOf x.pk (addTradeHistory _ _)) _ _
      rcases hmem x hx with rfl | ⟨hx, hne⟩
      · rw [hkind] at hxkind
        have hchain := h.chain t ht hxkind
        rw [historyOf_self (historyRow_trade _ _ _), endedTrade_version hstamp, hpk]
        exact .next _ _ _ _ hchain rfl (endedTrade_version hstamp _ _)
      · rw [historyOf_other fun hc => hne (hc.symm.trans hpk)]
        exact h.chain x hx hxkind
    history := by
      intro r hr
      rcases List.mem_append.mp hr with hr | hr
      · obtain ⟨x, hx, hxpk, hauth⟩ := h.history r hr
        by_cases hne : x.pk = t.pk
        · refine ⟨_, hhere, hpk.trans (hne.symm.trans hxpk), ?_⟩
          rw [h.keys.eq hx ht hne] at hauth
          rw [TradeStatusHistory.Authorized, Trade.HasParty, hseller, hbuyer]
          exact hauth
        · exact ⟨x, hstays x hx hne, hxpk, hauth⟩
      · rw [List.mem_singleton.mp hr]
        refine ⟨_, hhere, rfl, ?_⟩
        rw [TradeStatusHistory.Authorized, Trade.HasParty, hseller, hbuyer]
        show ((endedTrade t.version status stamp t).status = _ → actor = _) ∧
          ((endedTrade t.version status stamp t).status = _ → _)
        rw [endedTrade_status hstamp]
        cases hmay with
        | cancel _ _ _ hparty => exact ⟨fun h => absurd h (by decide), fun _ => hparty⟩
        | complete _ _ => exact ⟨fun _ => rfl, fun h => absurd h (by decide)⟩
    completedAt := by
      intro x hx
      rcases hmem x hx with rfl | ⟨hx, -⟩
      · rw [endedTrade_status hstamp]
        exact hstamp.completedAt hnone _
      · exact h.completedAt x hx
    owner := by
      intro x hx
      rcases hmem x hx with rfl | ⟨hx, -⟩
      · rw [hproduct, hseller]
        exact h.owner t ht
      · exact h.owner x hx
    distinct := by
      intro x hx
      rcases hmem x hx with rfl | ⟨hx, -⟩
      · rw [hbuyer, hseller]
        exact h.distinct t ht
      · exact h.distinct x hx
    legacy := by
      intro x hx hxkind
      rcases hmem x hx with rfl | ⟨hx, -⟩
      · rw [hkind] at hxkind
        have hdone := h.legacy t ht hxkind
        rw [hs] at hdone
        exact nomatch hdone
      · exact h.legacy x hx hxkind }

/-- **STEP**: a command keeps the invariant. -/
theorem Commanded.inv {c : TradeCommand} (h : Commanded c s s') (hi : TradeInv s) :
    TradeInv s' := by
  cases h with
  | opened actor n x _ hx hne hpk hfree => exact hi.opened hx hne hpk hfree
  | ended _ actor t status expectedVersion stamp _ hmay _ ht hs hstamp =>
      exact hi.ended hmay ht hs hstamp

/-! ## From one store to a later one -/

/-- Trades keep their identity, only a reserved one changes, and that to an end; a product
    of a completed trade gets no other. -/
structure TradesOnward (s s' : Store) : Prop where
  stays : ∀ t ∈ s.trades, ∃ t' ∈ s'.trades, t'.identity = t.identity ∧
    (t' = t ∨ t.status = .reserved ∧ t'.status ≠ .reserved)
  sold : ∀ t ∈ s.trades, t.status = .completed → ∀ t' ∈ s'.trades, t'.product = t.product →
    ∃ x ∈ s.trades, x.identity = t'.identity

theorem TradesOnward.refl (s : Store) : TradesOnward s s where
  stays t ht := ⟨t, ht, rfl, Or.inl rfl⟩
  sold _ _ _ t' ht' _ := ⟨t', ht', rfl⟩

/-- **STEP**: a command takes the trades onward. -/
theorem Commanded.onward {c : TradeCommand} (h : Commanded c s s') (hi : TradeInv s) :
    TradesOnward s s' := by
  cases h with
  | opened actor n x _ hx hne hpk hfree =>
      refine ⟨fun t ht => ⟨t, List.mem_append_left _ ht, rfl, Or.inl rfl⟩, ?_⟩
      intro t ht hdone t' ht' hproduct
      rcases List.mem_append.mp ht' with ht' | ht'
      · exact ⟨t', ht', rfl⟩
      · rw [List.mem_singleton.mp ht'] at hproduct
        rw [hfree t ht hproduct.symm] at hdone
        exact nomatch hdone
  | ended _ actor t status expectedVersion stamp _ hmay _ ht hs hstamp =>
      constructor
      · intro x hx
        by_cases hpk : x.pk = t.pk
        · rw [hi.keys.eq hx ht hpk]
          refine ⟨_, List.mem_map.mpr ⟨t, ht, if_pos rfl⟩, endedTrade_identity hstamp _ t,
            Or.inr ⟨hs, ?_⟩⟩
          rw [endedTrade_status hstamp]
          exact hstamp.final
        · exact ⟨x, List.mem_map.mpr ⟨x, hx, if_neg hpk⟩, rfl, Or.inl rfl⟩
      · intro x hx _ t' ht' _
        have hmem : t'.identity ∈ s.trades.map Trade.identity := by
          rw [← endWrites_keys hstamp actor s]
          exact List.mem_map_of_mem ht'
        exact List.mem_map.mp hmem

/-- Trades go onward step by step. -/
theorem TradesOnward.trans {s'' : Store} (h : TradesOnward s s') (h' : TradesOnward s' s'') :
    TradesOnward s s'' where
  stays t ht := by
    obtain ⟨x, hx, hid, hor⟩ := h.stays t ht
    obtain ⟨y, hy, hid', hor'⟩ := h'.stays x hx
    refine ⟨y, hy, hid'.trans hid, ?_⟩
    rcases hor with rfl | ⟨hs, hend⟩
    · exact hor'
    · rcases hor' with rfl | ⟨hs', -⟩
      · exact Or.inr ⟨hs, hend⟩
      · exact absurd hs' hend
  sold t ht hdone t' ht' hproduct := by
    -- the completed trade is still there, so what is about its product was there before
    obtain ⟨x, hx, hid, hor⟩ := h.stays t ht
    have hxt : x = t := by
      rcases hor with hor | ⟨hs, -⟩
      · exact hor
      · rw [hdone] at hs
        exact nomatch hs
    rw [hxt] at hx
    obtain ⟨y, hy, hidy⟩ := h'.sold t hx hdone t' ht' hproduct
    have hyp : y.product = t.product := (congrArg (·.2.1) hidy).trans hproduct
    obtain ⟨z, hz, hidz⟩ := h.sold t ht hdone y hy hyp
    exact ⟨z, hz, hidz.trans hidy⟩

/-! ## The locks of others -/

/-- The end of a reserved trade respects the locks of others, where keys are primary. -/
theorem respects_endWrites (hk : TradeKeys s) {t : Trade} (ht : t ∈ s.trades)
    (hs : t.status = .reserved) {status : TradeStatus} {stamp : Trade → Trade}
    (hstamp : Stamps status stamp) (actor : Nat) (hl : .row .trade t.pk ∈ held)
    (hkey : .unique (.tradeVersion t.pk (t.version + 1)) ∈ held) :
    Respects p held s (endWrites t status stamp actor s) := by
  have hid : (endedTrade t.version status stamp t).identity = t.identity :=
    endedTrade_identity hstamp _ t
  have hmem : ∀ x ∈ (endWrites t status stamp actor s).trades,
      x = endedTrade t.version status stamp t ∨ (x ∈ s.trades ∧ x.pk ≠ t.pk) :=
    fun x hx => mem_endWrites hk ht hx
  have hupdate : Respects p held s
      (updateTrade t.pk (endedTrade t.version status stamp) s) := by
    refine Respects.of_table .trade ?_ { Keeps.refl s with trades := ?_ } ?_ ?_ ?_
    · intro t' ht'
      cases t' <;> first | rfl | exact absurd rfl ht'
    · have hkeys := endWrites_keys (t := t) hstamp actor s
      show _ <+: (endWrites t status stamp actor s).trades.map Trade.identity
      rw [hkeys]
    · intro t' n ht' ho
      cases t' with
      | user =>
          refine ⟨RowStays.refl _ _ _, rfl, { OwnedSame.refl n s with reserved := ?_ }⟩
          intro x hx hparty hres
          rcases hmem x hx with rfl | ⟨hx, -⟩
          · rw [endedTrade_status hstamp] at hres
            exact absurd hres hstamp.final
          · exact ⟨x, hx, rfl, hparty, hres⟩
      | trade =>
          refine rowStays_map fun r hr => if_neg ?_
          rintro hrt
          rw [← hr, hrt] at ho
          exact not_open_row hl ho
      | _ => exact absurd ht' (by decide)
    · exact fun _ _ ht' => absurd ht' (by decide)
    · intro i hi _ h
      cases i with
      | pk t' n =>
          cases hi
          refine Eq.trans (any_map_congr fun r => ?_) h
          split
          · rw [show (endedTrade t.version status stamp r).pk = r.pk from
              congrArg Prod.fst (endedTrade_identity hstamp _ r)]
          · rfl
      | nonCancelledTrade n =>
          -- the trade that ends was in the index of its product
          rw [Index.present, List.any_eq_false] at h ⊢
          intro x hx
          rcases hmem x hx with rfl | ⟨hx, -⟩
          · have hnot := h t ht
            rw [hs] at hnot
            rw [show (endedTrade t.version status stamp t).product = t.product from
              congrArg (·.2.1) hid]
            intro hc
            rw [Bool.and_eq_true] at hc
            rw [hc.1] at hnot
            exact hnot rfl
          · exact h x hx
      | _ => cases hi
  refine hupdate.trans (respects_addTradeHistory ?_)
  have hpk : (endedTrade t.version status stamp t).pk = t.pk := congrArg Prod.fst hid
  show .unique (.tradeVersion (endedTrade t.version status stamp t).pk
    (endedTrade t.version status stamp t).version) ∈ held
  rw [hpk, endedTrade_version hstamp]
  exact hkey

/-- The context of a command: `cancel` and `complete` have their writes judged at the
    commit, where the trade that they end is known. -/
def TradeCommand.ctx (Γ : Ctx Store Lock Exn Obs) : TradeCommand → Ctx Store Lock Exn Obs
  | .reserve _ _ => Γ
  | .cancel _ _ _ => loosen Γ
  | .complete _ _ _ => loosen Γ

/-- A command may commit what its context says, -/
@[simp] theorem TradeCommand.ctx_guar (Γ : Ctx Store Lock Exn Obs) (c : TradeCommand) :
    (c.ctx Γ).guar = Γ.guar := by
  cases c <;> rfl

/-- and is told what the context tells. -/
@[simp] theorem TradeCommand.ctx_given (Γ : Ctx Store Lock Exn Obs) (c : TradeCommand) :
    (c.ctx Γ).given = Γ.given := by
  cases c <;> rfl

/-- A command's context is the one given, or has the writes judged at the commit. -/
theorem TradeCommand.ctx_cases (Γ : Ctx Store Lock Exn Obs) (c : TradeCommand) :
    c.ctx Γ = Γ ∨ c.ctx Γ = loosen Γ := by
  cases c with
  | reserve _ _ => exact Or.inl rfl
  | cancel _ _ _ => exact Or.inr rfl
  | complete _ _ _ => exact Or.inr rfl

/-- To commit more freely is no matter of the locks. -/
theorem loosen_abides (hA : Abides p Γ) : Abides p (loosen Γ) where
  lawful := loosen_lawful hA.lawful
  rely := hA.rely
  leave _ _ _ _ := trivial
  deferred := hA.deferred

/-- **SPECIFICATION** of a command under an invariant by which keys are primary. -/
theorem wp_tradeCommand (hA : Abides p Γ)
    (hstrict : ∀ held s s', Γ.leave held s s' → Respects p held s s') {I : Store → Prop}
    (hI : Steady Γ I) (hkeys : ∀ s, I s → TradeKeys s)
    (hshow : ∀ x actor seen seenAt now s, Eligible x actor seen seenAt now s →
      Γ.given (.reserving x actor seen seenAt) now s →
      Γ.shown (.reserving x actor seen seenAt) now s) (c : TradeCommand) (hi : Idle w)
    (h : I w.db) {Q : Except Exn TradeResult → World Store Lock Obs → Prop}
    (herr : ∀ e w3, Idle w3 → I w3.db → commitsOf w3.sess.hist = commitsOf w.sess.hist →
      Q (.error e) w3)
    (hok : ∀ r (w2 : World Store Lock Obs), I w2.db →
      commitsOf w2.sess.hist = commitsOf w.sess.hist →
      Respects p w2.sess.held w2.db w2.view →
      TradeDone w2.sess.held w2.db w2.sess.pend c r →
      Γ.guar w2.sess.held w2.db w2.view ∧ Q (.ok r) w2.publish) :
    wp (c.ctx Γ) c.run Q w := by
  -- the writes of an end, judged at the commit
  have hend : ∀ (r : TradeResult) (w2 : World Store Lock Obs), I w2.db →
      TradeDone w2.sess.held w2.db w2.sess.pend c r → (∀ a b, c ≠ .reserve a b) →
      Respects p w2.sess.held w2.db w2.view := by
    intro r w2 h2 hdone hc
    rw [World.view]
    cases hdone with
    | opened actor product _ _ _ => exact absurd rfl (hc _ _)
    | reservedBefore actor t _ _ _ _ _ => exact absurd rfl (hc _ _)
    | ended _ actor t status _ stamp _ _ hending =>
        rw [hending.writes]
        exact respects_endWrites (hkeys _ h2) hending.row hending.reserved hending.stamps actor
          hending.lock hending.freeVersion.held
    | endedBefore _ actor t _ _ _ _ hf =>
        rw [hf]
        exact Respects.refl p _ _
  cases c with
  | reserve actor product =>
      refine wp_settled hA.lawful hI hi h (fun w' hpend _ _ => body_reserve hA hpend
        fun x seen seenAt now s => hshow x actor seen seenAt now s)
        (fun _ _ _ hp he => hp.env hA he) herr fun r w2 h2 hc hleave hdone => ?_
      exact hok r w2 h2 hc (hstrict _ _ _ hleave) hdone
  | cancel actor n expectedVersion =>
      have hA' := loosen_abides hA
      refine wp_settled (Γ := loosen Γ) hA'.lawful hI hi h (fun w' hpend _ _ =>
        body_cancel hA' (fun _ _ _ => trivial) hpend) (fun _ _ _ hp he => hp.env hA' he) herr
        fun r w2 h2 hc _ hdone => ?_
      exact hok r w2 h2 hc (hend r w2 h2 hdone fun _ _ h => by cases h) hdone
  | complete actor n expectedVersion =>
      have hA' := loosen_abides hA
      refine wp_settled (Γ := loosen Γ) hA'.lawful hI hi h (fun w' hpend _ _ =>
        body_complete hA' (fun _ _ _ => trivial) hpend) (fun _ _ _ hp he => hp.env hA' he) herr
        fun r w2 h2 hc _ hdone => ?_
      exact hok r w2 h2 hc (hend r w2 h2 hdone fun _ _ h => by cases h) hdone

/-! ## Every run -/

/-- What the answer of a command says about its commit. -/
def Answered (c : TradeCommand) (r : TradeResult) (s s' : Store) : Prop :=
  (s' = s ∧ r.created = false ∧ r.trade ∈ s.trades) ∨
    (Commanded c s s' ∧ r.trade ∈ s'.trades)

/-- What was done was answered. -/
theorem TradeDone.answered {f : Store → Store} {c : TradeCommand} {r : TradeResult}
    (h : TradeDone held s f c r) : Answered c r s (f s) := by
  cases h with
  | opened actor product n x h =>
      have hpk : ∀ t ∈ s.trades, t.pk ≠ n := by
        intro t ht hn
        have hfree := h.freeTrade.free
        rw [Index.present, Table.present, List.any_eq_false] at hfree
        exact hfree t ht (beq_iff_eq.mpr hn)
      have hproduct : ∀ t ∈ s.trades, t.product = x.pk → t.status = .cancelled := by
        intro t ht hp
        have hfree := h.freeProduct.free
        rw [Index.present, List.any_eq_false] at hfree
        refine Decidable.byContradiction fun hne => hfree t ht ?_
        rw [Bool.and_eq_true, beq_iff_eq, bne_iff_ne]
        exact ⟨hp.trans h.pk, hne⟩
      rw [h.writes, ← h.pk]
      exact Or.inr ⟨.opened actor n x s h.row h.distinct hpk hproduct,
        List.mem_append_right _ List.mem_cons_self⟩
  | reservedBefore actor t _ ht _ _ hf =>
      rw [hf]
      exact Or.inl ⟨rfl, rfl, ht⟩
  | ended _ actor t status expectedVersion stamp hmay hv h =>
      rw [h.writes]
      exact Or.inr ⟨.ended c actor t status expectedVersion stamp s hmay hv h.row h.reserved
        h.stamps, List.mem_map.mpr ⟨t, h.row, if_pos rfl⟩⟩
  | endedBefore _ actor t _ _ _ ht hf =>
      rw [hf]
      exact Or.inl ⟨rfl, rfl, ht⟩

/-- What a commit of the command does. -/
def CommandStep (c : TradeCommand) (s s' : Store) : Prop := s' = s ∨ Commanded c s s'

/-- What was answered is one step of the lifecycle. -/
theorem Answered.step {c : TradeCommand} {r : TradeResult} (h : Answered c r s s') :
    CommandStep c s s' := h.imp And.left And.left

/-- **STEP**: a command keeps the invariant. -/
theorem CommandStep.inv {c : TradeCommand} (h : CommandStep c s s') (hi : TradeInv s) :
    TradeInv s' := by
  rcases h with rfl | h
  · exact hi
  · exact h.inv hi

/-- The context of the commands together. -/
def lifecycleCtx (p : Platform) (c : TradeCommand) : Ctx Store Lock Exn Obs :=
  under (market p ⟨fun _ _ => True, fun _ => CommandStep c⟩ (fun _ _ _ => True)
    fun _ _ _ => True) TradeInv

/-- To know of an invariant is no matter of the locks. -/
theorem under_abides (hA : Abides p Γ) (I : Store → Prop) : Abides p (under Γ I) where
  lawful := under_lawful hA.lawful I
  rely _ _ _ h := hA.rely _ _ _ h.1
  leave := hA.leave
  deferred := hA.deferred

/-- A role without rules of its own. -/
theorem everyWrite_lawful (step : List Lock → Store → Store → Prop) :
    (⟨fun _ _ => True, step⟩ : Role Store Lock).Lawful :=
  ⟨fun _ => trivial, fun _ _ _ _ _ => trivial⟩

theorem lifecycleCtx_abides (p : Platform) (c : TradeCommand) : Abides p (lifecycleCtx p c) :=
  under_abides (market_abides (everyWrite_lawful _) fun _ _ => trivial) _

theorem lifecycleCtx_fits {ι : Type} (p : Platform) (commands : ι → TradeCommand) :
    Fits (postgres fun _ _ => False)
      (fun i => (commands i).ctx (lifecycleCtx p (commands i))) := by
  refine fits_loosen (Γ := fun i => lifecycleCtx p (commands i)) ?_
    fun i => (commands i).ctx_cases _
  exact fits_under (market_fits p _ (fun i => everyWrite_lawful _) _ _) fun _ _ h => False.elim h

/-- How a command leaves its session: an error has committed nothing. -/
def CommandPost (c : TradeCommand) (r : Except Exn TradeResult) (w : World Store Lock Obs) :
    Prop :=
  match r with
  | .ok r => ∃ before after, commitsOf w.sess.hist = [(before, after)] ∧
      Answered c r before after
  | .error _ => commitsOf w.sess.hist = []

/-- **OPERATIONS** on trades, each in its context. -/
theorem wp_lifecycle (c : TradeCommand) {s : Store} {now : Time} (h : TradeInv s) :
    wp (c.ctx (lifecycleCtx p c)) c.run (CommandPost c) ⟨s, now, {}⟩ := by
  refine wp_tradeCommand (I := TradeInv) (lifecycleCtx_abides p c) (fun _ _ _ h => h.1)
    (under_steady _ _) (fun _ h => h.keys) (fun _ _ _ _ _ _ _ _ => trivial) c ⟨rfl, rfl, rfl⟩ h
    (fun _ _ _ _ hc => hc) fun r w2 h2 hc hrespects hdone => ?_
  have hanswer : Answered c r w2.db w2.view := hdone.answered
  refine ⟨⟨⟨hrespects, trivial, hanswer.step⟩, hanswer.step.inv⟩, w2.db, w2.view, ?_, hanswer⟩
  show (w2.db, w2.view) :: commitsOf w2.sess.hist = _
  rw [hc]
  rfl

/-- **LIFECYCLE**: in every run of reservations, cancellations and completions over the
    migrated trades, the trades of every store reached are as they should be, they go
    onward from there, and a command changes the store at most as it was asked to: not at
    all when it raises or is repeated. -/
theorem trade_lifecycle {ι : Type} [DecidableEq ι] (commands : ι → TradeCommand) {s : Store}
    {now : Time} {c c' : Config ι Store Lock Exn Obs TradeResult} (hlegacy : Migrated s)
    (hr : Reached s now (fun i => (commands i).run) c)
    (hr' : Reaches (postgres fun _ _ => False) c c') :
    TradeInv c.db ∧ TradesOnward c.db c'.db ∧
    (∀ i d, Step (postgres fun _ _ => False) (some i) c d → d.db = c.db ∨
      (Commanded (commands i) c.db d.db ∧ ¬ Repeated c.db (commands i))) ∧
    (∀ i r, c.prog i = .ret r → ∃ before after,
      commitsOf (c.sess i).hist = [(before, after)] ∧
        Answered (commands i) r before after) ∧
    ∀ i e, c.prog i = .raise e → commitsOf (c.sess i).hist = [] := by
  have hfit := lifecycleCtx_fits plainPlatform commands
  have hsup : Supported (fun i => (commands i).ctx (lifecycleCtx plainPlatform (commands i)))
      (fun i => CommandPost (commands i)) (Config.start s now fun i => (commands i).run) :=
    supported_start hfit.lawful fun i => wp_lifecycle (commands i) hlegacy.inv
  have hgiven : ∀ d : Config ι Store Lock Exn Obs TradeResult, AllSee (fun i =>
      ((commands i).ctx (lifecycleCtx plainPlatform (commands i))).given) d := by
    intro d i _ _ _ _
    rw [TradeCommand.ctx_given]
    trivial
  have hstep : ∀ i held s s', ((commands i).ctx (lifecycleCtx plainPlatform (commands i))).guar
      held s s' → CommandStep (commands i) s s' := by
    intro i held s s' hg
    rw [TradeCommand.ctx_guar] at hg
    exact hg.1.2.2
  have hinv : TradeInv c.db := by
    refine run_onward hfit hsup (fun _ _ _ h => False.elim h) (fun i held s s' h hg => ?_)
      (Reaches.refl _ _) hr (hgiven c) hlegacy.inv
    exact (hstep i held s s' hg).inv h
  refine ⟨hinv, ?_, fun i d hd => ?_, fun i r hi => ?_, fun i e hi => ?_⟩
  · have hend : TradeInv c'.db ∧ TradesOnward c.db c'.db := by
      refine run_onward (J := fun d => TradeInv d ∧ TradesOnward c.db d) hfit hsup
        (fun _ _ _ h => False.elim h) (fun i held s s' ⟨h, hon⟩ hg => ?_) hr hr' (hgiven c')
        ⟨hinv, TradesOnward.refl _⟩
      have hcmd := hstep i held s s' hg
      refine ⟨hcmd.inv h, ?_⟩
      rcases hcmd with rfl | hcmd
      · exact hon
      · exact hon.trans (hcmd.onward h)
    exact hend.2
  · rcases run_step hfit hsup hr hd (hgiven d) with hsame | hg
    · exact Or.inl hsame
    · rcases hstep i _ _ _ hg with hsame | hcmd
      · exact Or.inl hsame
      · exact Or.inr ⟨hcmd, hcmd.not_repeated hinv.keys⟩
  · obtain ⟨w, he, hpost⟩ := run_ended hfit hsup hr (hgiven c) (r := .ok r) hi
    obtain ⟨before, after, hc, hanswer⟩ := hpost
    refine ⟨before, after, ?_, hanswer⟩
    rw [← hc]
    exact congrArg (fun x => commitsOf x.hist) he.sess
  · obtain ⟨w, he, hpost⟩ := run_ended hfit hsup hr (hgiven c) (r := .error e) hi
    have hc : commitsOf w.sess.hist = [] := hpost
    rw [← hc]
    exact congrArg (fun x => commitsOf x.hist) he.sess

/-- A product that was sold long ago, and another of the same owner. -/
def soldAndForSale : Store where
  users := [{ pk := 1, username := "seller_one" }, { pk := 2, username := "buyer_one" }]
  products := [{ pk := 10, owner := 1 }, { pk := 11, owner := 1 }]
  trades := [
    { pk := 5, product := 10, seller := 1, buyer := none, kind := .legacySold,
      status := .completed, completedAt := some 3 }]

def reserveAndComplete : Fin 2 → TradeCommand
  | 0 => .reserve 2 11
  | 1 => .complete 1 7 (some 1)

/-- One trade is reserved and then completed, with two rows of history. -/
theorem trade_lifecycle_reserve_then_complete :
    ∃ c : Config (Fin 2) Store Lock Exn Obs TradeResult,
      Reached soldAndForSale 1000 (fun i => (reserveAndComplete i).run) c ∧
      c.db.trades.map (fun t => (t.pk, t.status, t.version)) =
        [(5, .completed, 1), (7, .completed, 2)] ∧ TradeInv c.db := by
  have hplay : (play validateBalancedJournal [.run 0 100 fun _ => 7, .run 1 100 id]
      (Config.start (V := Obs) soldAndForSale 1000 fun i => (reserveAndComplete i).run)).map
        (fun d => d.db.trades.map fun t => (t.pk, t.status, t.version)) =
      some [(5, .completed, 1), (7, .completed, 2)] := by decide +kernel
  obtain ⟨c, hr, htrades⟩ := reaches_of_play (D := postgres fun _ _ => False)
    (f := fun d => _) hplay
  exact ⟨c, hr, htrades, (trade_lifecycle reserveAndComplete (by decide) hr
    (Reaches.refl _ _)).1⟩

end Market
