import Marketplace.LedgerRuns
import Marketplace.WithdrawalSpecs

/-! # Closed money stays closed and empty

    Two operations close accounts, and transfers move money between open ones.  All of
    them decide on rows that they hold locked until the commit, so a closed account is
    not touched again, whatever the order in which the locks are granted. -/

namespace Market

open TxnProgram TxnInterleaving TxnLogic TxnProtection TxnSoundness TxnBody TxnFrames
  TxnSchedule

variable {p : Platform} {Γ : Ctx Store Lock Exn Obs} {held : List Lock} {s s' s'' : Store}

/-! ## The invariant -/

/-- The transfer has the account as its sender or its recipient. -/
def Transfer.names (t : Transfer) (account : Nat) : Bool :=
  t.sender == account || t.recipient == account

/-- Accounts have primary keys and one owner each; a closed one is empty and has its
    closing time; and a withdrawn user has a closed one. -/
structure ClosedMoney (s : Store) : Prop where
  keys : (s.accounts.map (·.pk)).Nodup
  owners : (s.accounts.map (·.user)).Nodup
  empty : ∀ a ∈ s.accounts, a.isOpen = false → a.balance = 0 ∧ a.closedAt.isSome = true
  withdrawn : ∀ u ∈ s.users, u.withdrawnAt.isSome = true →
    ∃ a ∈ s.accounts, a.user = u.pk ∧ a.isOpen = false

instance (s : Store) : Decidable (ClosedMoney s) :=
  decidable_of_iff ((s.accounts.map (·.pk)).Nodup ∧ (s.accounts.map (·.user)).Nodup ∧
    (∀ a ∈ s.accounts, a.isOpen = false → a.balance = 0 ∧ a.closedAt.isSome = true) ∧
    ∀ u ∈ s.users, u.withdrawnAt.isSome = true →
      ∃ a ∈ s.accounts, a.user = u.pk ∧ a.isOpen = false)
    ⟨fun ⟨h1, h2, h3, h4⟩ => ⟨h1, h2, h3, h4⟩, fun h => ⟨h.keys, h.owners, h.empty, h.withdrawn⟩⟩

/-- The rows of closed accounts stay exactly as they are, and no transfer with one of
    them is added. -/
structure StaysClosed (s s' : Store) : Prop where
  rows : ∀ a ∈ s.accounts, a.isOpen = false → a ∈ s'.accounts
  transfers : ∀ a ∈ s.accounts, a.isOpen = false →
    s'.transfers.filter (·.names a.pk) = s.transfers.filter (·.names a.pk)

theorem StaysClosed.refl (s : Store) : StaysClosed s s := ⟨fun _ h _ => h, fun _ _ _ => rfl⟩

theorem StaysClosed.trans (h : StaysClosed s s') (h' : StaysClosed s' s'') :
    StaysClosed s s'' where
  rows a ha hc := h'.rows a (h.rows a ha hc) hc
  transfers a ha hc := (h'.transfers a (h.rows a ha hc) hc).trans (h.transfers a ha hc)

/-- What is committed when closed money stays closed. -/
def ClosedStep (s s' : Store) : Prop := ClosedMoney s → ClosedMoney s' ∧ StaysClosed s s'

/-- Accounts, transfers and users are all that matters. -/
theorem ClosedStep.of_same (haccounts : s'.accounts = s.accounts)
    (htransfers : s'.transfers = s.transfers) (husers : s'.users = s.users) :
    ClosedStep s s' := by
  intro hi
  refine ⟨⟨?_, ?_, ?_, ?_⟩, ?_, ?_⟩
  · rw [haccounts]
    exact hi.keys
  · rw [haccounts]
    exact hi.owners
  · rw [haccounts]
    exact hi.empty
  · rw [haccounts, husers]
    exact hi.withdrawn
  · rw [haccounts]
    exact fun _ h _ => h
  · rw [htransfers]
    exact fun _ _ _ => rfl

theorem ClosedStep.trans (h : ClosedStep s s') (h' : ClosedStep s' s'') : ClosedStep s s'' := by
  intro hi
  obtain ⟨hi', hs⟩ := h hi
  obtain ⟨hi'', hs'⟩ := h' hi'
  exact ⟨hi'', hs.trans hs'⟩

/-! ## Rewritten accounts -/

/-- A rewriting of accounts that leaves closed ones alone, and closes empty ones only. -/
structure Tends (s : Store) (g : MockAccount → MockAccount) : Prop where
  identity : ∀ a, (g a).identity = a.identity
  closed : ∀ a ∈ s.accounts, a.isOpen = false → g a = a
  empty : ∀ a ∈ s.accounts, a.isOpen = true → (g a).isOpen = false →
    (g a).balance = 0 ∧ (g a).closedAt.isSome = true

/-- **ACCOUNTS**: such a rewriting keeps the part of the invariant about accounts. -/
theorem Tends.closedStep {g : MockAccount → MockAccount} (h : Tends s g)
    (haccounts : s'.accounts = s.accounts.map g)
    (htransfers : ∀ a ∈ s.accounts, a.isOpen = false →
      s'.transfers.filter (·.names a.pk) = s.transfers.filter (·.names a.pk))
    (husers : ∀ u ∈ s'.users, u.withdrawnAt.isSome = true →
      (∃ v ∈ s.users, v.pk = u.pk ∧ v.withdrawnAt.isSome = true) ∨
        ∃ a ∈ s.accounts, a.user = u.pk ∧ (g a).isOpen = false) : ClosedStep s s' := by
  intro hi
  have hpk : ∀ a, (g a).pk = a.pk := fun a => congrArg Prod.fst (h.identity a)
  have huser : ∀ a, (g a).user = a.user := fun a => congrArg Prod.snd (h.identity a)
  refine ⟨⟨?_, ?_, ?_, ?_⟩, ?_, htransfers⟩
  · rw [haccounts, List.map_map]
    have hmap : s.accounts.map ((·.pk) ∘ g) = s.accounts.map (·.pk) :=
      List.map_congr_left fun a _ => hpk a
    rw [hmap]
    exact hi.keys
  · rw [haccounts, List.map_map]
    have hmap : s.accounts.map ((·.user) ∘ g) = s.accounts.map (·.user) :=
      List.map_congr_left fun a _ => huser a
    rw [hmap]
    exact hi.owners
  · intro b hb hclosed
    rw [haccounts] at hb
    obtain ⟨a, ha, rfl⟩ := List.mem_map.mp hb
    cases hopen : a.isOpen with
    | true => exact h.empty a ha hopen hclosed
    | false =>
        rw [h.closed a ha hopen]
        exact hi.empty a ha hopen
  · intro u hu hw
    rw [haccounts]
    rcases husers u hu hw with ⟨v, hv, hvpk, hvw⟩ | ⟨a, ha, hau, hclosed⟩
    · obtain ⟨a, ha, hau, hopen⟩ := hi.withdrawn v hv hvw
      refine ⟨g a, List.mem_map_of_mem ha, (huser a).trans (hau.trans hvpk), ?_⟩
      rw [h.closed a ha hopen]
      exact hopen
    · exact ⟨g a, List.mem_map_of_mem ha, (huser a).trans hau, hclosed⟩
  · intro a ha hopen
    rw [haccounts]
    exact List.mem_map.mpr ⟨a, ha, h.closed a ha hopen⟩

/-- An open account is not a closed one. -/
theorem ClosedMoney.ne_open (hi : ClosedMoney s) {a b : MockAccount} (ha : a ∈ s.accounts)
    (hclosed : a.isOpen = false) (hb : b ∈ s.accounts) (hopen : b.isOpen = true) :
    a.pk ≠ b.pk := by
  intro e
  rw [eq_of_key hi.keys ha hb e, hopen] at hclosed
  exact nomatch hclosed

/-! ## The operations -/

theorem Movement.rebalance_open (m : Movement) (a : MockAccount) :
    (m.rebalance a).isOpen = a.isOpen := by
  rw [Movement.rebalance]
  split
  · rfl
  · split <;> rfl

/-- The row of a movement. -/
def Movement.row (m : Movement) : Transfer :=
  { pk := m.transfer, sender := m.sender.pk, recipient := m.recipient.pk,
    journal := m.journal, amount := m.amount }

theorem Movement.apply_transfers (m : Movement) (s : Store) :
    (m.apply s).transfers = s.transfers ++ [m.row] ∧ (m.apply s).users = s.users := by
  constructor <;>
    simp only [Movement.apply, addTransferAudit, addRequest, addTransfer, addEntries,
      addJournal, setBalance, updateAccount, Movement.row]

/-- **STEP**, a movement: both accounts are open and locked. -/
theorem Movement.closedStep {c : Call} {m : Movement} (h : MoveReady p c held s m) :
    ClosedStep s (m.apply s) := by
  intro hi
  obtain ⟨htransfers, husers⟩ := m.apply_transfers s
  refine Tends.closedStep (g := m.rebalance)
    ⟨fun a => ?_, fun a ha hclosed => ?_, fun a ha hopen hclosed => ?_⟩
    (Movement.apply_accounts (h.toMoveAllowed.ne hi.keys)) ?_ ?_ hi
  · rw [Movement.rebalance]
    split
    · rfl
    · split <;> rfl
  · rw [Movement.rebalance, if_neg (hi.ne_open ha hclosed h.recipientRow h.recipientOpen),
      if_neg (hi.ne_open ha hclosed h.senderRow h.senderOpen)]
  · -- a movement closes nothing
    rw [m.rebalance_open, hopen] at hclosed
    cases hclosed
  · intro a ha hclosed
    rw [htransfers, List.filter_append, List.filter_cons_of_neg, List.filter_nil,
      List.append_nil]
    rw [Transfer.names, Bool.or_eq_true, beq_iff_eq, beq_iff_eq]
    rintro (e | e)
    · exact hi.ne_open ha hclosed h.senderRow h.senderOpen e.symm
    · exact hi.ne_open ha hclosed h.recipientRow h.recipientOpen e.symm
  · rw [husers]
    exact fun u hu hw => Or.inl ⟨u, hu, rfl, hw⟩

/-- **STEP**, a call of a transfer. -/
theorem TransferStep.closedStep {c : Call} {r : TransferResult}
    (h : TransferStep p c r held s s') : ClosedStep s s' := by
  obtain ⟨g, ⟨f, notes, hexec, -, rfl⟩, rfl⟩ := h
  have hnotes : ∀ s, ClosedStep s (addNotifications notes s) := fun s =>
    ClosedStep.of_same rfl rfl rfl
  cases hexec with
  | replayed _ => exact hnotes s
  | denied q _ _ _ =>
      have hdenied : ClosedStep s (addRequest q s) := ClosedStep.of_same rfl rfl rfl
      exact hdenied.trans (hnotes _)
  | moved m hm _ => exact (Movement.closedStep hm).trans (hnotes _)

/-- An empty account that is closed. -/
theorem tends_close {a : MockAccount} {now : Time} (hi : ClosedMoney s) (ha : a ∈ s.accounts)
    (hopen : a.isOpen = true) (hempty : a.balance = 0) :
    Tends s fun x => if x.pk = a.pk then { x with isOpen := false, closedAt := some now }
      else x := by
  refine ⟨fun x => ?_, fun x hx hclosed => ?_, fun x hx hopen' hclosed => ?_⟩
  · split <;> rfl
  · exact if_neg (hi.ne_open hx hclosed ha hopen)
  · by_cases hpk : x.pk = a.pk
    · rw [if_pos hpk]
      rw [eq_of_key hi.keys hx ha hpk]
      exact ⟨hempty, rfl⟩
    · rw [if_neg hpk, hopen'] at hclosed
      exact nomatch hclosed

/-- **STEP**, `close_account`: the account is empty, open and locked. -/
theorem CloseEnd.closedStep {user : Nat} {r : Bool} {f : Store → Store}
    (h : CloseEnd user held s r f) : ClosedStep s (f s) := by
  have hnew : ∀ new : Bool, ClosedStep s (whenNew new (addSafety {}) s) := fun new => by
    cases new <;> exact ClosedStep.of_same rfl rfl rfl
  have haccounts : ∀ new : Bool, (whenNew new (addSafety {}) s).accounts = s.accounts :=
    fun new => by cases new <;> rfl
  cases h with
  | already new => exact hnew new
  | closed new a now ha =>
      refine (hnew new).trans fun hi => ?_
      refine (tends_close hi ?_ ha.isOpen ha.empty).closedStep rfl (fun _ _ _ => rfl)
        (fun u hu hw => Or.inl ⟨u, hu, rfl, hw⟩) hi
      rw [haccounts]
      exact ha.row

/-- **STEP**, a withdrawal: it closes the account of the user, if that is open. -/
theorem WithdrawalDone.closedStep {user : Nat} {r : WithdrawalResult}
    {w : World Store Lock Obs} (h : WithdrawalDone Γ user r w) : ClosedStep w.db w.view := by
  cases h with
  | replayed _ h =>
      rw [view_of_id h.pend]
      exact ClosedStep.of_same rfl rfl rfl
  | withdrawn u now scope favorites notifications _ h =>
      intro hi
      have htransfers : w.view.transfers = w.db.transfers := by
        rw [World.view, h.writes.rest]
      have husers : w.view.users = (setWithdrawn u now w.db).users := h.writes.users w.db
      have haccounts : w.view.accounts = (closeIfOpen scope.account now w.db).accounts :=
        h.writes.accounts w.db
      have hrow := h.locked.account
      -- who is withdrawn now was so before, or is this user
      have hwho : ∀ v ∈ w.view.users, v.withdrawnAt.isSome = true →
          (∃ x ∈ w.db.users, x.pk = v.pk ∧ x.withdrawnAt.isSome = true) ∨ v.pk = u.pk := by
        intro v hv hw
        rw [husers] at hv
        obtain ⟨x, hx, rfl⟩ := List.mem_map.mp hv
        by_cases hpk : x.pk = u.pk
        · rw [if_pos hpk]
          exact Or.inr hpk
        · rw [if_neg hpk] at hw ⊢
          exact Or.inl ⟨x, hx, rfl, hw⟩
      cases hopen : scope.account.isOpen with
      | true =>
          rw [closeIfOpen, if_pos hopen] at haccounts
          refine (tends_close hi hrow hopen h.locked.accountEmpty).closedStep haccounts
            (fun _ _ _ => by rw [htransfers]) (fun v hv hw => (hwho v hv hw).imp id ?_) hi
          exact fun hpk => ⟨scope.account, hrow, h.locked.accountUser.trans hpk.symm,
            by rw [if_pos rfl]⟩
      | false =>
          rw [closeIfOpen, hopen, if_neg Bool.false_ne_true] at haccounts
          refine Tends.closedStep (g := id) ⟨fun _ => rfl, fun _ _ _ => rfl,
            fun a _ ho hc => ?_⟩ (haccounts.trans (List.map_id _).symm)
            (fun _ _ _ => by rw [htransfers]) (fun v hv hw => (hwho v hv hw).imp id ?_) hi
          · rw [id, ho] at hc
            cases hc
          · exact fun hpk => ⟨scope.account, hrow, h.locked.accountUser.trans hpk.symm, hopen⟩

/-! ## Every run -/

/-- Transfers, and the two operations that close accounts. -/
inductive ClosingOp where
  | transfer (user : Nat) (recipientName : String) (amount : Money) (key : Uuid)
  | transferForProductRoom (user room : Nat) (amount : Money) (key : Uuid)
  | closeAccount (user : Nat)
  | withdrawAccount (user : Nat) (password : String)

/-- The program of an operation; what it answers does not matter here. -/
def ClosingOp.run (p : Platform) : ClosingOp → M Unit
  | .transfer user recipientName amount key => do
      let _ ← Market.transfer p user recipientName amount key none
      return ()
  | .transferForProductRoom user room amount key => do
      let _ ← Market.transferForProductRoom p user room amount key
      return ()
  | .closeAccount user => do
      let _ ← Market.closeAccount user
      return ()
  | .withdrawAccount user password => do
      let _ ← Market.withdrawAccount user password
      return ()

/-- The context of sessions that leave closed money closed. -/
def closingCtx (p : Platform) : Ctx Store Lock Exn Obs :=
  market p ⟨fun _ _ => True, fun _ => ClosedStep⟩ (fun _ _ _ => True) fun _ _ _ => True

theorem top_closingOp (op : ClosingOp) : Top (closingCtx p) (op.run p) := by
  have hA : Abides p (closingCtx p) :=
    market_abides ⟨fun _ => trivial, fun _ _ _ _ _ => trivial⟩ fun _ _ => trivial
  have hcommit : ∀ c : Call, Commits p c (closingCtx p) :=
    fun c r held s s' hleave h => ⟨hleave.1, hleave.2, h.closedStep⟩
  have hpost : ∀ {c : Call} {before} (r : Except Exn TransferResult) w,
      CallPost p c before r w → Idle w := fun _ _ h => h.1
  cases op with
  | transfer user name amount key =>
      refine Top.bind (fun w hi => ?_) fun _ => Top.ret ()
      exact wp_mono hpost (wp_transfer hA (hcommit ⟨user, amount, key,
        canonicalPayload name amount⟩) rfl hi)
  | transferForProductRoom user room amount key =>
      refine Top.bind (fun w hi => ?_) fun _ => Top.ret ()
      exact wp_mono hpost (wp_transferForProductRoom hA (hcommit ⟨user, amount, key,
        canonicalRoomPayload room amount⟩) rfl hi)
  | closeAccount user =>
      exact Top.bind (top_closeAccount hA fun r held s f hleave h =>
        ⟨hleave.1, hleave.2, h.closedStep⟩) fun _ => Top.ret ()
  | withdrawAccount user password =>
      exact Top.bind (top_withdrawAccount_done hA user password fun r w hleave h =>
        ⟨hleave.1, hleave.2, h.closedStep⟩) fun _ => Top.ret ()

/-- **CLOSED MONEY**: in every interleaving of transfers, closings and withdrawals, closed
    accounts are empty and the withdrawn have one, in every store reached; and from there
    on they are not touched again and named in no new transfer. -/
theorem closed_money {ι : Type} [DecidableEq ι] (p : Platform) (ops : ι → ClosingOp)
    {s : Store} {now : Time} {c c' : Config ι Store Lock Exn Obs Unit} (h : ClosedMoney s)
    (hr : Reached s now (fun i => (ops i).run p) c)
    (hr' : Reaches (postgres fun _ _ => False) c c') :
    ClosedMoney c.db ∧ StaysClosed c.db c'.db := by
  have hfit : Fits (postgres fun _ _ => False) (fun _ : ι => closingCtx p) :=
    market_fits p _ (fun _ => ⟨fun _ => trivial, fun _ _ _ _ _ => trivial⟩) _ _
  have hprog : ∀ i, Top (closingCtx p) ((ops i).run p) := fun i => top_closingOp (ops i)
  have hinv : ClosedMoney c.db :=
    top_invariant hfit hprog (fun _ _ _ h => False.elim h)
      (fun _ _ _ _ hi hg => (hg.2.2 hi).1) hr (fun _ _ _ _ _ => trivial) h
  have hend : ClosedMoney c'.db ∧ StaysClosed c.db c'.db := by
    refine top_onward (I := fun d => ClosedMoney d ∧ StaysClosed c.db d) hfit hprog
      (fun _ _ _ h => False.elim h) ?_ hr hr' (fun _ _ _ _ _ => trivial)
      ⟨hinv, StaysClosed.refl _⟩
    intro i held s s' ⟨hi, hc⟩ hg
    obtain ⟨hi', hs⟩ := hg.2.2 hi
    exact ⟨hi', hc.trans hs⟩
  exact ⟨hinv, hend.2⟩

/-- The sender pays all there is to the recipient, who is withdrawing. -/
def payAndWithdraw : Fin 3 → ClosingOp
  | 0 => .withdrawAccount 2 "correct horse"
  | 1 => .transfer 1 "recipient" 2500 9
  | 2 => .closeAccount 1

/-- Two accounts, one of them empty. -/
def oneEmpty : Store where
  users := [{ pk := 1, username := "sender" },
    { pk := 2, username := "recipient", password := some "correct horse" }]
  accounts := [{ pk := 7, user := 1, balance := 2500 }, { pk := 8, user := 2, balance := 0 }]
  ledgerAccounts := [{ pk := 5, kind := .user, mockAccount := some 7, code := "USER:1" },
    { pk := 6, kind := .user, mockAccount := some 8, code := "USER:2" }]
  safety := some {}

theorem closed_money_withdraw_first : ∃ c c' : Config (Fin 3) Store Lock Exn Obs Unit,
    Reached oneEmpty 1000 (fun i => (payAndWithdraw i).run plainPlatform) c ∧
      Reaches (postgres fun _ _ => False) c c' ∧
      (c.db.accounts.map (·.isOpen), c'.db.requests.map (·.responseStatus)) =
        ([true, false], [422]) ∧
      ClosedMoney c.db ∧ StaysClosed c.db c'.db := by
  have hplay : ((play validateBalancedJournal [.run 1 2 id, .run 0 100 id]
      (Config.start (V := Obs) oneEmpty 1000 fun i =>
        (payAndWithdraw i).run plainPlatform)).bind fun d =>
        (play validateBalancedJournal [.run 1 100 id, .run 2 100 id] d).map fun d' =>
          (d.db.accounts.map (·.isOpen), d'.db.requests.map (·.responseStatus))) =
      some ([true, false], [422]) := by decide +kernel
  obtain ⟨c, c', hr, hr', hb, hw⟩ :=
    reaches_of_plays (D := postgres fun _ _ => False) (f := fun d => _) (g := fun d => _) hplay
  exact ⟨c, c', hr, hr', Prod.ext hb hw,
    closed_money plainPlatform payAndWithdraw (by decide) hr hr'⟩

end Market
