import Marketplace.Bank
import Marketplace.ClosedMoney
import Marketplace.KeyedRows
import Marketplace.TxnInvariants

/-! # The ledger is a bank

    An abstract bank knows of no locks, savepoints or retries: one action opens an
    account, pays, refuses or closes.  `bankOf` reads such a bank off the tables, and
    whatever the five operations on the ledger do in whatever order, each step is one
    action that the operation asks for, or none. -/

namespace Market

open TxnProgram TxnInterleaving TxnLogic TxnProtection TxnSoundness TxnBody TxnFrames
  TxnInvariants TxnSchedule KeyedRows

variable {p : Platform} {Γ : Ctx Store Lock Exn Obs} {held : List Lock} {s s' : Store}

/-! ## The bank of a store -/

/-- The terms of the ledger. -/
def ledgerTerms : Bank.Terms := ⟨SEED_AMOUNT, MAX_BALANCE, by decide, by decide⟩

/-- The account of a user. -/
def accountOf (user : Nat) (s : Store) : Option MockAccount :=
  lookup (·.user) s.accounts user

/-- The request of an account under a key. -/
def requestUnder (account : Nat) (key : Uuid) (s : Store) : Option TransferRequest :=
  lookup (fun r => (r.sender, r.idempotencyKey)) s.requests (account, key)

/-- What the bank sees of an account. -/
def MockAccount.inBank (a : MockAccount) : Bank.Account := ⟨a.balance, a.isOpen⟩

/-- The bank of a store: a request has been paid when it has a transfer. -/
def bankOf (s : Store) : Bank.State Nat Uuid where
  account user := (accountOf user s).map MockAccount.inBank
  answer user key := (accountOf user s).bind fun a =>
    (requestUnder a.pk key s).map fun r => r.transfer.isSome

/-- Accounts have keys and owners of their own, and requests keys of their accounts. -/
structure BankRows (s : Store) : Prop where
  keys : (s.accounts.map (·.pk)).Nodup
  owners : (s.accounts.map (·.user)).Nodup
  requestKeys : (s.requests.map fun r => (r.sender, r.idempotencyKey)).Nodup
  senders : ∀ r ∈ s.requests, ∃ a ∈ s.accounts, a.pk = r.sender

/-- Accounts and requests are all that matters. -/
theorem bankOf_same (haccounts : s'.accounts = s.accounts)
    (hrequests : s'.requests = s.requests) : bankOf s' = bankOf s := by
  simp only [bankOf, accountOf, requestUnder, haccounts, hrequests]

/-- The rows of the bank are those of the two tables, and of nothing else. -/
theorem BankRows.same (hi : BankRows s) (haccounts : s'.accounts = s.accounts)
    (hrequests : s'.requests = s.requests) : BankRows s' := by
  constructor
  · rw [haccounts]
    exact hi.keys
  · rw [haccounts]
    exact hi.owners
  · rw [hrequests]
    exact hi.requestKeys
  · rw [haccounts, hrequests]
    exact hi.senders

/-- An account is found by its user, since the user is unique. -/
theorem BankRows.accountOf (hi : BankRows s) {a : MockAccount} (ha : a ∈ s.accounts) :
    accountOf a.user s = some a := lookup_of_mem hi.owners ha

/-- What is found is an account of the user. -/
theorem accountOf_mem {user : Nat} {a : MockAccount} (h : accountOf user s = some a) :
    a ∈ s.accounts ∧ a.user = user :=
  ⟨List.mem_of_find?_eq_some h, lookup_key h⟩

/-- The row behind the identity of an account. -/
theorem BankRows.user_eq (hi : BankRows s) {a : MockAccount} {user : Nat}
    (ha : a ∈ s.accounts) (h : (a.pk, user) ∈ s.accounts.map MockAccount.identity) :
    a.user = user := by
  obtain ⟨b, hb, he⟩ := List.mem_map.mp h
  have hab : a = b := eq_of_key hi.keys ha hb (congrArg Prod.fst he).symm
  rw [hab]
  exact congrArg Prod.snd he

/-! ## Writes to the two tables -/

section Writes

variable {a : MockAccount} {f : MockAccount → MockAccount} {k : Uuid}

theorem BankRows.updateAccount (hi : BankRows s) {n : Nat}
    (hf : ∀ x, (f x).identity = x.identity) : BankRows (updateAccount n f s) := by
  have hpk : ∀ x, (f x).pk = x.pk := fun x => congrArg Prod.fst (hf x)
  have huser : ∀ x, (f x).user = x.user := fun x => congrArg Prod.snd (hf x)
  have hrows : ∀ {β : Type} (col : MockAccount → β), (∀ x, col (f x) = col x) →
      (Market.updateAccount n f s).accounts.map col = s.accounts.map col := by
    intro β col hcol
    show (s.accounts.map _).map col = _
    rw [List.map_map]
    refine List.map_congr_left fun x _ => ?_
    rw [Function.comp_apply]
    split
    · exact hcol x
    · rfl
  constructor
  · rw [hrows _ hpk]
    exact hi.keys
  · rw [hrows _ huser]
    exact hi.owners
  · exact hi.requestKeys
  · intro r hr
    obtain ⟨x, hx, he⟩ := hi.senders r hr
    have hmem : x.pk ∈ (Market.updateAccount n f s).accounts.map (·.pk) := by
      rw [hrows _ hpk]
      exact List.mem_map_of_mem hx
    obtain ⟨y, hy, hyx⟩ := List.mem_map.mp hmem
    exact ⟨y, hy, hyx.trans he⟩

/-- An update changes what is found for its own user only. -/
theorem accountOf_updateAccount (hf : ∀ x, (f x).identity = x.identity) (n user : Nat) :
    accountOf user (updateAccount n f s) =
      (accountOf user s).map fun x => if x.pk = n then f x else x := by
  refine lookup_map fun x => ?_
  split
  · exact congrArg Prod.snd (hf x)
  · rfl

/-- An account is rewritten. -/
theorem bankOf_updateAccount (hi : BankRows s) (ha : a ∈ s.accounts)
    (hf : ∀ x, (f x).identity = x.identity) :
    bankOf (updateAccount a.pk f s) = (bankOf s).setAccount a.user (f a).inBank := by
  have hpk : ∀ x, (f x).pk = x.pk := fun x => congrArg Prod.fst (hf x)
  ext1
  · funext user
    show (accountOf user _).map _ = _
    rw [accountOf_updateAccount hf]
    by_cases hu : user = a.user
    · rw [hu, hi.accountOf ha, Bank.State.setAccount_self]
      simp
    · rw [Bank.State.setAccount_of_ne hu]
      show _ = (accountOf user s).map _
      cases hx : accountOf user s with
      | none => rfl
      | some x =>
          obtain ⟨hmem, huser⟩ := accountOf_mem hx
          have hne : x.pk ≠ a.pk := by
            intro he
            rw [eq_of_key hi.keys hmem ha he] at huser
            exact hu huser.symm
          simp [hne]
  · funext user key
    show (accountOf user _).bind _ = (accountOf user s).bind _
    rw [accountOf_updateAccount hf, Option.bind_map]
    congr 1
    funext x
    have hkey : (if x.pk = a.pk then f x else x).pk = x.pk := by
      split
      · exact hpk x
      · rfl
    rw [Function.comp_apply, hkey]
    rfl

theorem BankRows.addRequest (hi : BankRows s) {r : TransferRequest} (ha : a ∈ s.accounts)
    (hr : r.sender = a.pk) (hnew : requestUnder a.pk r.idempotencyKey s = none) :
    BankRows (addRequest r s) := by
  refine ⟨hi.keys, hi.owners, ?_, fun q hq => ?_⟩
  · show ((s.requests ++ [r]).map _).Nodup
    rw [List.map_append, List.nodup_append]
    refine ⟨hi.requestKeys, by simp, ?_⟩
    intro x hx y hy he
    obtain ⟨q, hq, rfl⟩ := List.mem_map.mp hx
    rw [List.map_singleton, List.mem_singleton, hr] at hy
    have hfound := lookup_of_mem hi.requestKeys hq
    rw [he, hy] at hfound
    rw [requestUnder, hfound] at hnew
    cases hnew
  · rcases List.mem_append.mp hq with hq | hq
    · exact hi.senders q hq
    · rw [List.mem_singleton.mp hq]
      exact ⟨a, ha, hr.symm⟩

/-- A request is stored under a new key. -/
theorem bankOf_addRequest (hi : BankRows s) {r : TransferRequest} (ha : a ∈ s.accounts)
    (hr : r.sender = a.pk) (hnew : requestUnder a.pk r.idempotencyKey s = none) :
    bankOf (addRequest r s) =
      (bankOf s).setAnswer a.user r.idempotencyKey r.transfer.isSome := by
  ext1
  · rfl
  · funext user key
    rw [Bank.State.setAnswer_answer]
    show (accountOf user s).bind _ = if _ then _ else (accountOf user s).bind _
    by_cases hkey : user = a.user ∧ key = r.idempotencyKey
    · obtain ⟨rfl, rfl⟩ := hkey
      have hfound : requestUnder a.pk r.idempotencyKey (Market.addRequest r s) = some r := by
        rw [requestUnder, ← hr] at hnew ⊢
        exact lookup_added hnew
      rw [if_pos ⟨rfl, rfl⟩, hi.accountOf ha, Option.bind_some, hfound]
      rfl
    · rw [if_neg hkey]
      cases hx : accountOf user s with
      | none => rfl
      | some x =>
          obtain ⟨hmem, huser⟩ := accountOf_mem hx
          have hne : (r.sender, r.idempotencyKey) ≠ (x.pk, key) := by
            intro he
            obtain ⟨hsender, rfl⟩ := Prod.mk.injEq .. ▸ he
            rw [eq_of_key hi.keys hmem ha (hsender.symm.trans hr)] at huser
            exact hkey ⟨huser.symm, rfl⟩
          have hsame : requestUnder x.pk key (Market.addRequest r s) = requestUnder x.pk key s :=
            lookup_append_of_ne hne
          rw [Option.bind_some, Option.bind_some, hsame]

theorem requestUnder_free {n : Nat} (h : (Index.requestKey n k).present s = false) :
    requestUnder n k s = none := by
  rw [requestUnder, lookup_eq_none, ← h]
  show _ = s.requests.any fun r => r.sender == n && r.idempotencyKey == k
  congr 1
  funext r
  rw [Bool.eq_iff_iff]
  simp

end Writes

/-! ## What the operations ask for -/

/-- The actions that an operation asks for: its user is the one who acts, and an amount is
    the one that was given with the key. -/
def MoneyOp.asks : MoneyOp → Bank.Action Nat Uuid → Prop
  | .ensureAccount user, a => a = .opens user
  | .transfer user _ amount key, a =>
      a = .refuses user key ∨ ∃ other, a = .pays user other amount.money key
  | .transferForProductRoom user _ amount key, a =>
      a = .refuses user key ∨ ∃ other, a = .pays user other amount.money key
  | .closeAccount user, a => a = .closes user
  | .withdrawAccount user _, a => a = .closes user

/-- One action of the bank or none, as far as the rows are in order. -/
def BankStep (asks : Bank.Action Nat Uuid → Prop) (s s' : Store) : Prop :=
  BankRows s → BankRows s' ∧ (bankOf s' = bankOf s ∨
    ∃ a, asks a ∧ Bank.Step ledgerTerms a (bankOf s) (bankOf s'))

section Steps

variable {asks : Bank.Action Nat Uuid → Prop}

/-- Nothing happens to the bank. -/
theorem BankStep.of_same (haccounts : s'.accounts = s.accounts)
    (hrequests : s'.requests = s.requests) : BankStep asks s s' :=
  fun hi => ⟨hi.same haccounts hrequests, Or.inl (bankOf_same haccounts hrequests)⟩

/-- What leaves the two tables alone may follow. -/
theorem BankStep.then_same {s'' : Store} (h : BankStep asks s s')
    (haccounts : s''.accounts = s'.accounts) (hrequests : s''.requests = s'.requests) :
    BankStep asks s s'' := by
  intro hi
  obtain ⟨hi', hstep⟩ := h hi
  rw [← bankOf_same haccounts hrequests] at hstep
  exact ⟨hi'.same haccounts hrequests, hstep⟩

/-- **OPENING**: the user had no account, and no request was of the new one. -/
theorem OpeningReady.bankStep {user : Nat} {o : Opening} (h : OpeningReady user held s o)
    (hasks : asks (.opens user)) : BankStep asks s (o.apply s) := by
  intro hi
  have haccounts : (o.apply s).accounts = s.accounts ++ [o.account] := by
    cases hn : o.newReserve <;> cases hc : o.newSafety <;>
      simp [Opening.apply, whenNew, hn, hc, addSafety, addEntries, addJournal,
        addLedgerAccount, addAccount]
  have hrequests : (o.apply s).requests = s.requests := by
    cases hn : o.newReserve <;> cases hc : o.newSafety <;>
      simp [Opening.apply, whenNew, hn, hc, addSafety, addEntries, addJournal,
        addLedgerAccount, addAccount]
  have hnone : accountOf o.account.user s = none := by
    rw [accountOf, lookup_eq_none, h.accountUser]
    exact h.userFree.free
  have hpk : ∀ a ∈ s.accounts, a.pk ≠ o.account.pk := key_ne h.accountFree.free
  have huser : ∀ a ∈ s.accounts, a.user ≠ o.account.user := by
    intro a ha he
    rw [← he, hi.accountOf ha] at hnone
    cases hnone
  constructor
  · constructor
    · rw [haccounts, List.map_append, List.nodup_append]
      refine ⟨hi.keys, by simp, ?_⟩
      simpa using hpk
    · rw [haccounts, List.map_append, List.nodup_append]
      refine ⟨hi.owners, by simp, ?_⟩
      simpa using huser
    · rw [hrequests]
      exact hi.requestKeys
    · rw [haccounts, hrequests]
      intro r hr
      obtain ⟨a, ha, he⟩ := hi.senders r hr
      exact ⟨a, List.mem_append_left _ ha, he⟩
  · refine Or.inr ⟨_, hasks, ?_⟩
    have hother : ∀ u, u ≠ user → accountOf u (o.apply s) = accountOf u s := by
      intro u hu
      rw [accountOf, haccounts]
      refine lookup_append_of_ne ?_
      rw [h.accountUser]
      exact Ne.symm hu
    have hself : accountOf user (o.apply s) = some o.account := by
      rw [accountOf, haccounts, ← h.accountUser]
      exact lookup_added hnone
    -- seen from the bank, the opening is one new account with the seed
    have hbank : bankOf (o.apply s) = (bankOf s).setAccount user ⟨SEED_AMOUNT, true⟩ := by
      ext1
      · funext u
        show (accountOf u _).map _ = _
        by_cases hu : u = user
        · rw [hu, hself, Bank.State.setAccount_self, Option.map_some, MockAccount.inBank,
            h.accountBalance, h.accountOpen]
        · rw [hother u hu, Bank.State.setAccount_of_ne hu]
          rfl
      · funext u k
        show (accountOf u _).bind _ = (accountOf u s).bind _
        by_cases hu : u = user
        · -- the new account has asked for nothing yet
          have hfree : requestUnder o.account.pk k (o.apply s) = none := by
            refine requestUnder_free ?_
            show (o.apply s).requests.any _ = false
            rw [hrequests, List.any_eq_false]
            intro r hr he
            rw [Bool.and_eq_true, beq_iff_eq] at he
            obtain ⟨a, ha, hsender⟩ := hi.senders r hr
            exact hpk a ha (hsender.trans he.1)
          rw [h.accountUser] at hnone
          rw [hu, hself, hnone, Option.bind_some, hfree]
          rfl
        · rw [hother u hu]
          simp only [requestUnder, hrequests]
    rw [hbank]
    refine Bank.Step.opens _ _ ?_
    show (accountOf user s).map _ = none
    rw [← h.accountUser, hnone]
    rfl

/-- **CLOSING**: the account of the user is open and empty. -/
theorem bankStep_close {user : Nat} {a : MockAccount} {now : Time} (ha : a ∈ s.accounts)
    (huser : a.user = user) (hopen : a.isOpen = true) (hempty : a.balance = 0)
    (hasks : asks (.closes user)) : BankStep asks s (setClosed a.pk now s) := by
  intro hi
  refine ⟨hi.updateAccount fun _ => rfl, Or.inr ⟨_, hasks, ?_⟩⟩
  have hbank : bankOf (setClosed a.pk now s) = (bankOf s).setAccount user ⟨0, false⟩ := by
    rw [← huser, ← hempty]
    exact bankOf_updateAccount hi ha fun _ => rfl
  rw [hbank]
  refine Bank.Step.closes _ _ ?_
  show (accountOf user s).map _ = _
  rw [← huser, hi.accountOf ha, Option.map_some, MockAccount.inBank, hopen, hempty]

/-- **CLOSING** is a step of the bank. -/
theorem CloseOwn.bankStep {user : Nat} {r : Bool} {f : Store → Store}
    (h : CloseOwn user held s r f) (hasks : asks (.closes user)) : BankStep asks s (f s) := by
  have hnew : ∀ new : Bool, (whenNew new (addSafety {}) s).accounts = s.accounts ∧
      (whenNew new (addSafety {}) s).requests = s.requests := by
    intro new
    cases new <;> exact ⟨rfl, rfl⟩
  cases h with
  | already new => exact BankStep.of_same (hnew new).1 (hnew new).2
  | closed new a now ha howner =>
      intro hi
      have hstep : BankStep asks s (setClosed a.pk now s) :=
        bankStep_close ha.row (hi.user_eq ha.row howner) ha.isOpen ha.empty hasks
      refine hstep.then_same ?_ ?_ hi
      · show (whenNew new (addSafety {}) s).accounts.map _ = s.accounts.map _
        rw [(hnew new).1]
      · exact (hnew new).2

/-- So is the withdrawal that closes the account with it. -/
theorem WithdrawalDone.bankStep {user : Nat} {r : WithdrawalResult}
    {w : World Store Lock Obs} (h : WithdrawalDone Γ user r w) (hasks : asks (.closes user)) :
    BankStep asks w.db w.view := by
  cases h with
  | replayed _ h =>
      rw [view_of_id h.pend]
      exact BankStep.of_same rfl rfl
  | withdrawn u now scope favorites notifications hu h =>
      have haccounts : w.view.accounts = (closeIfOpen scope.account now w.db).accounts :=
        h.writes.accounts w.db
      have hrequests : w.view.requests = w.db.requests := by
        rw [World.view, h.writes.rest]
      cases hopen : scope.account.isOpen with
      | true =>
          rw [closeIfOpen, if_pos hopen] at haccounts
          have hstep : BankStep asks w.db (setClosed scope.account.pk now w.db) :=
            bankStep_close h.locked.account (h.locked.accountUser.trans hu) hopen
              h.locked.accountEmpty hasks
          exact hstep.then_same haccounts hrequests
      | false =>
          rw [closeIfOpen, hopen, if_neg Bool.false_ne_true] at haccounts
          exact BankStep.of_same haccounts hrequests

/-- **REFUSAL**: a denial is stored under a key without an answer. -/
theorem RequestReady.bankStep {c : Call} {q : TransferRequest}
    (h : RequestReady p c held s q) (hdenial : Denial q) (hasks : asks (.refuses c.user c.key)) :
    BankStep asks s (addRequest q s) := by
  intro hi
  obtain ⟨a, ha, hid⟩ := List.mem_map.mp h.owner.mem
  have hpk : a.pk = q.sender := congrArg Prod.fst hid
  have huser : a.user = c.user := congrArg Prod.snd hid
  have hnone : requestUnder a.pk q.idempotencyKey s = none := by
    rw [hpk, h.key]
    exact requestUnder_free h.free
  refine ⟨hi.addRequest ha hpk.symm hnone, Or.inr ⟨_, hasks, ?_⟩⟩
  rw [bankOf_addRequest hi ha hpk.symm hnone, huser, h.key, hdenial.transfer]
  rw [h.key] at hnone
  refine Bank.Step.refuses _ _ _ ?_ ?_
  · show ((accountOf c.user s).map _).isSome = true
    rw [← huser, hi.accountOf ha]
    rfl
  · show (accountOf c.user s).bind _ = none
    rw [← huser, hi.accountOf ha, Option.bind_some, hnone]
    rfl

/-- The two balances of a movement, written one after the other. -/
def Movement.balances (m : Movement) (s : Store) : Store :=
  setBalance m.recipient.pk (m.recipient.balance + m.amount)
    (setBalance m.sender.pk (m.sender.balance - m.amount) s)

/-- The payer's row after them. -/
def Movement.payer (m : Movement) : MockAccount :=
  { m.sender with balance := m.sender.balance - m.amount }

theorem Movement.apply_balances (m : Movement) (s : Store) :
    (m.apply s).accounts = (addRequest m.request (m.balances s)).accounts ∧
      (m.apply s).requests = (addRequest m.request (m.balances s)).requests :=
  ⟨rfl, rfl⟩

/-- What the bank sees of the balances. -/
theorem MoveReady.balances {c : Call} {m : Movement} (hi : BankRows s)
    (h : MoveReady p c held s m) : BankRows (m.balances s) ∧ m.payer ∈ (m.balances s).accounts ∧
      bankOf (m.balances s) =
        ((bankOf s).setAccount m.sender.user ⟨m.sender.balance - m.amount, true⟩).setAccount
          m.recipient.user ⟨m.recipient.balance + m.amount, true⟩ := by
  have hne : m.sender.pk ≠ m.recipient.pk := h.toMoveAllowed.ne hi.keys
  have hi1 : BankRows (setBalance m.sender.pk (m.sender.balance - m.amount) s) :=
    hi.updateAccount fun _ => rfl
  have hpayer : m.payer ∈ (setBalance m.sender.pk (m.sender.balance - m.amount) s).accounts :=
    List.mem_map.mpr ⟨m.sender, h.senderRow, if_pos rfl⟩
  have hother : m.recipient ∈
      (setBalance m.sender.pk (m.sender.balance - m.amount) s).accounts :=
    List.mem_map.mpr ⟨m.recipient, h.recipientRow, if_neg (Ne.symm hne)⟩
  have hbank : bankOf (setBalance m.sender.pk (m.sender.balance - m.amount) s) =
      (bankOf s).setAccount m.sender.user ⟨m.sender.balance - m.amount, true⟩ := by
    rw [← h.senderOpen]
    exact bankOf_updateAccount hi h.senderRow fun _ => rfl
  refine ⟨hi1.updateAccount fun _ => rfl, List.mem_map.mpr ⟨_, hpayer, if_neg hne⟩, ?_⟩
  rw [← hbank, ← h.recipientOpen]
  exact bankOf_updateAccount hi1 hother fun _ => rfl

/-- **PAYMENT**: both accounts are open and locked, and the key has no answer. -/
theorem MoveReady.bankStep {c : Call} {m : Movement} (h : MoveReady p c held s m)
    (hamount : 0 < c.amount) (hasks : ∀ other, asks (.pays c.user other c.amount c.key)) :
    BankStep asks s (m.apply s) := by
  intro hi
  obtain ⟨hi2, hpayer, hbank2⟩ := h.balances hi
  obtain ⟨haccounts, hrequests⟩ := m.apply_balances s
  have huser : m.sender.user = c.user := hi.user_eq h.senderRow h.owner.mem
  have hother : m.recipient.user ≠ c.user := by
    obtain ⟨u, hu, hid⟩ := h.other
    rw [hi.user_eq h.recipientRow hid]
    exact hu
  have hnone : requestUnder m.sender.pk c.key s = none := by
    refine requestUnder_free ?_
    rw [← h.requestSender]
    exact h.request.free
  have hadded : requestUnder m.payer.pk m.request.idempotencyKey (m.balances s) = none := by
    rw [h.request.key]
    exact hnone
  have hbank : bankOf (m.apply s) = (((bankOf s).setAccount c.user
      ⟨m.sender.balance - m.amount, true⟩).setAccount m.recipient.user
      ⟨m.recipient.balance + m.amount, true⟩).setAnswer c.user c.key true := by
    have hadd := bankOf_addRequest hi2 hpayer h.requestSender hadded
    have hpayerUser : m.payer.user = c.user := huser
    rw [hbank2, huser, hpayerUser, h.request.key, h.transfer] at hadd
    rw [bankOf_same haccounts hrequests, hadd]
    rfl
  refine ⟨(hi2.addRequest hpayer h.requestSender hadded).same haccounts hrequests,
    Or.inr ⟨_, hasks m.recipient.user, ?_⟩⟩
  rw [hbank, h.amount]
  refine Bank.Step.pays _ _ _ _ _ _ _ (Ne.symm hother) ?_ ?_ ?_ hamount h.enough h.below
  · show (accountOf c.user s).map _ = _
    rw [← huser, hi.accountOf h.senderRow, Option.map_some, MockAccount.inBank, h.senderOpen]
  · show (accountOf m.recipient.user s).map _ = _
    rw [hi.accountOf h.recipientRow, Option.map_some, MockAccount.inBank, h.recipientOpen]
  · show (accountOf c.user s).bind _ = none
    rw [← huser, hi.accountOf h.senderRow, Option.bind_some, hnone]
    rfl

/-- A call of either endpoint. -/
theorem TransferStep.bankStep {c : Call} {r : TransferResult} (h : TransferStep p c r held s s')
    (hamount : 0 < c.amount) (hpays : ∀ other, asks (.pays c.user other c.amount c.key))
    (hrefuses : asks (.refuses c.user c.key)) : BankStep asks s s' := by
  obtain ⟨g, ⟨f, notes, hexec, -, rfl⟩, rfl⟩ := h
  cases hexec with
  | replayed _ => exact BankStep.of_same rfl rfl
  | denied q hq hdenial _ => exact (hq.bankStep hdenial hrefuses).then_same rfl rfl
  | moved m hm _ => exact (hm.bankStep hamount hpays).then_same rfl rfl

end Steps

/-! ## Every run -/

/-- The context of a session: it does to the bank what its operation asks for. -/
def bankCtx (p : Platform) (op : MoneyOp) : Ctx Store Lock Exn Obs :=
  market p ⟨fun _ _ => True, fun _ => BankStep op.asks⟩ (fun _ _ _ => True) fun _ _ _ => True

/-- The steps of the bank compose as a role must. -/
theorem bankRole_lawful (op : MoneyOp) :
    (⟨fun _ _ => True, fun _ => BankStep op.asks⟩ : Role Store Lock).Lawful :=
  ⟨fun _ => trivial, fun _ _ _ _ _ => trivial⟩

/-- Every operation does only what it asks for. -/
theorem top_moneyOp_bank (op : MoneyOp) : Top (bankCtx p op) (op.run p) := by
  have hA : Abides p (bankCtx p op) := market_abides (bankRole_lawful op) fun _ _ => trivial
  have hpost : ∀ {c : Call} {before} (r : Except Exn TransferResult) w,
      CallPost p c before r w → Idle w := fun _ _ h => h.1
  cases op with
  | ensureAccount user =>
      refine Top.bind (top_ensureAccount hA fun a held s f hleave h => ?_) fun _ => Top.ret ()
      refine ⟨hleave.1, hleave.2, ?_⟩
      cases h with
      | found _ _ _ => exact BankStep.of_same rfl rfl
      | opened o ho _ => exact ho.bankStep rfl
  | transfer user name amount key =>
      refine Top.bind (fun w hi => ?_) fun _ => Top.ret ()
      refine wp_mono hpost (wp_transfer hA (c := ⟨user, amount.money, key,
        canonicalPayload name amount.money⟩) (fun r held s s' hleave h => ?_) rfl hi)
      exact ⟨hleave.1, hleave.2, h.bankStep amount.money_pos (fun other => Or.inr ⟨other, rfl⟩)
        (Or.inl rfl)⟩
  | transferForProductRoom user room amount key =>
      refine Top.bind (fun w hi => ?_) fun _ => Top.ret ()
      refine wp_mono hpost (wp_transferForProductRoom hA (c := ⟨user, amount.money, key,
        canonicalRoomPayload room amount.money⟩) (fun r held s s' hleave h => ?_) rfl hi)
      exact ⟨hleave.1, hleave.2, h.bankStep amount.money_pos (fun other => Or.inr ⟨other, rfl⟩)
        (Or.inl rfl)⟩
  | closeAccount user =>
      exact Top.bind (top_closeAccount_own hA fun r held s f hleave h =>
        ⟨hleave.1, hleave.2, h.bankStep rfl⟩) fun _ => Top.ret ()
  | withdrawAccount user password =>
      exact Top.bind (top_withdrawAccount_done hA user password fun r w hleave h =>
        ⟨hleave.1, hleave.2, h.bankStep rfl⟩) fun _ => Top.ret ()

/-- The operations on money fit the database together. -/
theorem bank_fits {ι : Type} (p : Platform) (ops : ι → MoneyOp) :
    Fits (postgres fun _ _ => False) (fun i => bankCtx p (ops i)) :=
  market_fits p (fun i => ⟨fun _ _ => True, fun _ => BankStep (ops i).asks⟩)
    (fun i => bankRole_lawful (ops i)) _ _

/-- Every operation starts supported. -/
theorem bank_supported {ι : Type} [DecidableEq ι] (p : Platform) (ops : ι → MoneyOp) (s : Store)
    (now : Time) : Supported (fun i => bankCtx p (ops i)) (fun _ _ w => Idle w)
      (Config.start s now fun i => (ops i).run p) :=
  supported_start (bank_fits p ops).lawful fun i => top_moneyOp_bank (ops i) _ ⟨rfl, rfl, rfl⟩

/-- An invariant of the rows and of what the operations ask for holds in every run. -/
theorem bank_invariant {ι : Type} [DecidableEq ι] {p : Platform} {ops : ι → MoneyOp}
    {now : Time} {c : Config ι Store Lock Exn Obs Unit} {I : Store → Prop}
    (hI : ∀ i s s', I s → BankStep (ops i).asks s s' → I s')
    (hr : Reached s now (fun i => (ops i).run p) c) (h : I s) : I c.db :=
  top_invariant (bank_fits p ops) (fun i => top_moneyOp_bank (ops i))
    (fun _ _ _ h => False.elim h) (fun i _ s s' hi hg => hI i s s' hi hg.2.2) hr
    (fun _ _ _ _ _ => trivial) h

/-- **REFINEMENT**: in every store that the operations reach, whatever the interleaving,
    the next step of the system is one action of the bank that the operation of its
    session asks for, or leaves the bank alone. -/
theorem ledger_refines_bank {ι : Type} [DecidableEq ι] (p : Platform) (ops : ι → MoneyOp)
    {now : Time} {c : Config ι Store Lock Exn Obs Unit} (h : BankRows s)
    (hr : Reached s now (fun i => (ops i).run p) c) :
    ∀ who c', Step (postgres fun _ _ => False) who c c' →
      bankOf c'.db = bankOf c.db ∨ ∃ i a, who = some i ∧ (ops i).asks a ∧
        Bank.Step ledgerTerms a (bankOf c.db) (bankOf c'.db) := by
  intro who c' hs
  cases who with
  | none =>
      cases hs with
      | tick _ t ht => exact Or.inl rfl
      | env _ s he => exact False.elim he
  | some i =>
      have hrows : BankRows c.db := bank_invariant (fun i s s' hi hstep => (hstep hi).1) hr h
      rcases run_step (bank_fits p ops) (bank_supported p ops s now) hr hs
        (fun _ _ _ _ _ => trivial) with hsame | hguar
      · exact Or.inl (congrArg bankOf hsame)
      · refine (hguar.2.2 hrows).2.imp id ?_
        rintro ⟨a, hasks, hstep⟩
        exact ⟨i, a, rfl, hasks, hstep⟩

/-- A run of three operations: the payment is the next action. -/
theorem ledger_refines_bank_openAndTransfer :
    ∃ c : Config (Fin 3) Store Lock Exn Obs Unit,
      Reached twoUsers 0 (fun i => (openAndTransfer i).run plainPlatform) c ∧
        c.db.accounts.map (·.balance) = [10000000, 10000000] ∧
        ∀ who c', Step (postgres fun _ _ => False) who c c' →
          bankOf c'.db = bankOf c.db ∨ ∃ i a, who = some i ∧ (openAndTransfer i).asks a ∧
            Bank.Step ledgerTerms a (bankOf c.db) (bankOf c'.db) := by
  have hplay : (play validateBalancedJournal [.run 1 2 id, .run 0 100 (fun k => 10 + k),
      .run 1 100 (fun k => 20 + k), .run 2 30 (fun k => 30 + k)]
      (Config.start twoUsers 0 fun i => (openAndTransfer i).run plainPlatform)).map
        (fun d => d.db.accounts.map (·.balance)) = some [10000000, 10000000] := by
    decide +kernel
  obtain ⟨c, hr, hb⟩ :=
    reaches_of_play (D := postgres fun _ _ => False) (f := fun d => _) hplay
  have hrows : BankRows twoUsers := by
    refine ⟨List.nodup_nil, List.nodup_nil, List.nodup_nil, fun r hr => ?_⟩
    cases hr
  exact ⟨c, hr, hb, ledger_refines_bank plainPlatform openAndTransfer hrows hr⟩

/-! ## Statements of account -/

/-- Nothing was asked for yet, and nobody has an account. -/
structure BankEmpty (s : Store) : Prop where
  accounts : s.accounts = []
  requests : s.requests = []

theorem BankEmpty.rows (h : BankEmpty s) : BankRows s := by
  obtain ⟨haccounts, hrequests⟩ := h
  constructor <;> simp [haccounts, hrequests]

theorem BankEmpty.init (h : BankEmpty s) : bankOf s = Bank.State.init := by
  simp [bankOf, accountOf, lookup, h.accounts, Bank.State.init]

/-- A list of actions, each with the session whose operation asked for it, that accounts
    for all that is stored. -/
structure BankStatement {ι : Type} (ops : ι → MoneyOp) (actions : List (ι × Bank.Action Nat Uuid))
    (s : Store) : Prop where
  asked : ∀ x ∈ actions, (ops x.1).asks x.2
  balance : ∀ a ∈ s.accounts,
    a.balance = (actions.map fun x => x.2.change ledgerTerms a.user).sum
  range : ∀ a ∈ s.accounts, 0 ≤ a.balance ∧ a.balance ≤ MAX_BALANCE ∧
    (a.isOpen = false → a.balance = 0)
  once : (actions.filterMap (·.2.key)).Nodup
  answer : ∀ a ∈ s.accounts, ∀ key paid,
    (∃ r ∈ s.requests, r.sender = a.pk ∧ r.idempotencyKey = key ∧
      r.transfer.isSome = paid) ↔
    ∃ x ∈ actions, x.2.key = some (a.user, key) ∧ x.2.paid = paid

/-- The answer of the bank is that of the stored request. -/
theorem BankRows.answer (hi : BankRows s) {a : MockAccount} (ha : a ∈ s.accounts) (key : Uuid)
    (paid : Bool) : (bankOf s).answer a.user key = some paid ↔
      ∃ r ∈ s.requests, r.sender = a.pk ∧ r.idempotencyKey = key ∧
        r.transfer.isSome = paid := by
  have hanswer : (bankOf s).answer a.user key =
      (requestUnder a.pk key s).map fun r => r.transfer.isSome := by
    show (Market.accountOf a.user s).bind _ = _
    rw [hi.accountOf ha, Option.bind_some]
  rw [hanswer, Option.map_eq_some_iff]
  constructor
  · rintro ⟨r, hr, hpaid⟩
    have hkey := lookup_key hr
    rw [Prod.mk.injEq] at hkey
    exact ⟨r, List.mem_of_find?_eq_some hr, hkey.1, hkey.2, hpaid⟩
  · rintro ⟨r, hr, hsender, rfl, hpaid⟩
    rw [← hsender]
    exact ⟨r, lookup_of_mem hi.requestKeys hr, hpaid⟩

/-- The actions of a path from the first day on are a statement. -/
theorem BankStatement.of_path {ι : Type} {ops : ι → MoneyOp}
    {actions : List (ι × Bank.Action Nat Uuid)} (hi : BankRows s)
    (hasked : ∀ x ∈ actions, (ops x.1).asks x.2)
    (hpath : Bank.Path ledgerTerms .init (actions.map (·.2)) (bankOf s)) :
    BankStatement ops actions s := by
  obtain ⟨honce, hanswers⟩ := hpath.answers
  have haccount : ∀ a ∈ s.accounts, (bankOf s).account a.user = some a.inBank := by
    intro a ha
    show (accountOf a.user s).map _ = _
    rw [hi.accountOf ha]
    rfl
  refine ⟨hasked, fun a ha => ?_, fun a ha => ?_, ?_, fun a ha key paid => ?_⟩
  · have hbalance := hpath.balance a.user
    have hzero : (Bank.State.init : Bank.State Nat Uuid).balance a.user = 0 := rfl
    rw [Bank.State.balance_of_account (haccount a ha), hzero, Int.zero_add, List.map_map]
      at hbalance
    exact hbalance
  · exact hpath.sound Bank.State.init_sound a.user a.inBank (haccount a ha)
  · rw [List.filterMap_map] at honce
    exact honce
  · rw [← hi.answer ha, hanswers]
    constructor
    · rintro ⟨a, ha, h⟩
      obtain ⟨x, hx, rfl⟩ := List.mem_map.mp ha
      exact ⟨x, hx, h⟩
    · rintro ⟨x, hx, h⟩
      exact ⟨x.2, List.mem_map_of_mem hx, h⟩

/-- **STATEMENTS**: from the first day on, in every run, the balances and the stored answers
    are those of a list of actions, each asked for by the operation of a session and no two
    under one key. -/
theorem statement_reached {ι : Type} [DecidableEq ι] (p : Platform) (ops : ι → MoneyOp)
    {now : Time} {c : Config ι Store Lock Exn Obs Unit} (h : BankEmpty s)
    (hr : Reached s now (fun i => (ops i).run p) c) :
    ∃ actions, BankStatement ops actions c.db := by
  have hinv : BankRows c.db ∧ ∃ actions : List (ι × Bank.Action Nat Uuid),
      (∀ x ∈ actions, (ops x.1).asks x.2) ∧
        Bank.Path ledgerTerms .init (actions.map (·.2)) (bankOf c.db) := by
    refine bank_invariant (I := fun s => BankRows s ∧
      ∃ actions : List (ι × Bank.Action Nat Uuid), (∀ x ∈ actions, (ops x.1).asks x.2) ∧
        Bank.Path ledgerTerms .init (actions.map (·.2)) (bankOf s)) ?_ hr ?_
    · rintro i s s' ⟨hi, actions, hasked, hpath⟩ hstep
      obtain ⟨hi', hsame | ⟨a, hasks, hs⟩⟩ := hstep hi
      · rw [hsame]
        exact ⟨hi', actions, hasked, hpath⟩
      · refine ⟨hi', actions ++ [(i, a)], ?_, ?_⟩
        · intro x hx
          rcases List.mem_append.mp hx with hx | hx
          · exact hasked x hx
          · rw [List.mem_singleton.mp hx]
            exact hasks
        · rw [List.map_append]
          exact hpath.snoc hs
    · refine ⟨h.rows, [], ?_, ?_⟩
      · intro x hx
        cases hx
      · rw [h.init]
        exact Bank.Path.nil
  obtain ⟨hi, actions, hasked, hpath⟩ := hinv
  exact ⟨actions, BankStatement.of_path hi hasked hpath⟩

/-- Two accounts and the payment between them have a statement. -/
theorem statement_reached_openAndTransfer :
    ∃ c : Config (Fin 3) Store Lock Exn Obs Unit,
      Reached twoUsers 0 (fun i => (openAndTransfer i).run plainPlatform) c ∧
        (c.db.accounts.map (·.balance), c.db.requests.map (·.idempotencyKey)) =
          ([9750000, 10250000], [9]) ∧ ∃ actions, BankStatement openAndTransfer actions c.db := by
  have hplay : (play validateBalancedJournal [.run 1 2 id, .run 0 100 (fun k => 10 + k),
      .run 1 100 (fun k => 20 + k), .run 2 100 (fun k => 30 + k)]
      (Config.start twoUsers 0 fun i => (openAndTransfer i).run plainPlatform)).map
        (fun d => (d.db.accounts.map (·.balance), d.db.requests.map (·.idempotencyKey))) =
          some ([9750000, 10250000], [9]) := by
    decide +kernel
  obtain ⟨c, hr, hb⟩ :=
    reaches_of_play (D := postgres fun _ _ => False) (f := fun d => _) hplay
  exact ⟨c, hr, hb, statement_reached plainPlatform openAndTransfer ⟨rfl, rfl⟩ hr⟩

end Market
