import Mathlib.Data.List.Nodup
import Mathlib.Tactic.Linarith
import Marketplace.AccountSpecs

/-! # The ledger balances

    What the tables of `transfers` say together: two entries of sum zero in every
    journal, one ledger account for every mock account, whose entries add up to its
    balance, and one seed for each account out of the reserve.  Openings, transfers
    and whatever leaves the ledger alone keep it so. -/

namespace Market

/-- The sum of the entries of the reserve. -/
def reserveTotal (s : Store) : Money :=
  ((s.ledgerAccounts.filter (·.code == "SEED_RESERVE")).map fun l => entryTotal l.pk s).sum

/-- The entries of a journal. -/
def entriesOf (journal : Uuid) (s : Store) : List LedgerEntry :=
  s.entries.filter (·.journal == journal)

/-- The journal is the seed of the account. -/
def LedgerJournal.seeds (j : LedgerJournal) (account : Nat) : Bool :=
  j.kind == .seedIssue && j.targetMockAccount == some account

/-- What of an account the ledger is about. -/
def MockAccount.holding (a : MockAccount) : Nat × Money := (a.pk, a.balance)

/-- The ledger is consistent. -/
structure LedgerInv (s : Store) : Prop where
  accountKeys : (s.accounts.map (·.pk)).Nodup
  ledgerKeys : (s.ledgerAccounts.map (·.pk)).Nodup
  journalKeys : (s.journals.map (·.pk)).Nodup
  ledgerOf : ∀ l ∈ s.ledgerAccounts, ∀ n, l.mockAccount = some n → ∃ a ∈ s.accounts, a.pk = n
  entryOf : ∀ e ∈ s.entries, (∃ l ∈ s.ledgerAccounts, l.pk = e.account) ∧
    ∃ j ∈ s.journals, j.pk = e.journal
  seedOf : ∀ j ∈ s.journals, ∀ n, j.seeds n = true → ∃ a ∈ s.accounts, a.pk = n
  balanced : ∀ j ∈ s.journals, (entriesOf j.pk s).length = 2 ∧
    ((entriesOf j.pk s).map (·.amount)).sum = 0
  ledger : ∀ a ∈ s.accounts, ∃ l, l.kind = .user ∧
    s.ledgerAccounts.filter (·.mockAccount == some a.pk) = [l]
  balance : ∀ a ∈ s.accounts, ∀ l ∈ s.ledgerAccounts, l.mockAccount = some a.pk →
    a.balance = entryTotal l.pk s
  range : ∀ a ∈ s.accounts, 0 ≤ a.balance ∧ a.balance ≤ MAX_BALANCE
  seed : ∀ a ∈ s.accounts, (s.journals.filter (·.seeds a.pk)).length = 1
  reserveOnly : ∀ l ∈ s.ledgerAccounts, l.code = "SEED_RESERVE" → l.mockAccount = none
  total : (s.accounts.map (·.balance)).sum = SEED_AMOUNT * s.accounts.length
  reserve : reserveTotal s = -(SEED_AMOUNT * s.accounts.length)

/-- The ledger and the balances are left alone. -/
structure LedgerQuiet (s s' : Store) : Prop where
  accounts : s'.accounts.map MockAccount.holding = s.accounts.map MockAccount.holding
  ledgerAccounts : s'.ledgerAccounts = s.ledgerAccounts
  journals : s'.journals = s.journals
  entries : s'.entries = s.entries

/-- A store is quiet about its own ledger. -/
theorem LedgerQuiet.refl (s : Store) : LedgerQuiet s s := ⟨rfl, rfl, rfl, rfl⟩

/-- Quiet stretches compose. -/
theorem LedgerQuiet.trans {s s' s'' : Store} (h : LedgerQuiet s s')
    (h' : LedgerQuiet s' s'') : LedgerQuiet s s'' :=
  ⟨h'.accounts.trans h.accounts, h'.ledgerAccounts.trans h.ledgerAccounts,
    h'.journals.trans h.journals, h'.entries.trans h.entries⟩

/-- An account after a quiet stretch was there before, with the same balance. -/
theorem LedgerQuiet.mem {s s' : Store} (h : LedgerQuiet s s') {a : MockAccount}
    (ha : a ∈ s'.accounts) : ∃ b ∈ s.accounts, b.pk = a.pk ∧ b.balance = a.balance := by
  have hm : a.holding ∈ s.accounts.map MockAccount.holding := by
    rw [← h.accounts]
    exact List.mem_map.mpr ⟨a, ha, rfl⟩
  obtain ⟨b, hb, hh⟩ := List.mem_map.mp hm
  exact ⟨b, hb, congrArg Prod.fst hh, congrArg Prod.snd hh⟩

/-- A quiet stretch leaves every total of the ledger. -/
theorem LedgerQuiet.entryTotal {s s' : Store} (h : LedgerQuiet s s') (n : Nat) :
    entryTotal n s' = entryTotal n s := by
  rw [Market.entryTotal, Market.entryTotal, h.entries]

/-- Quietness reads the same both ways. -/
theorem LedgerQuiet.symm {s s' : Store} (h : LedgerQuiet s s') : LedgerQuiet s' s :=
  ⟨h.accounts.symm, h.ledgerAccounts.symm, h.journals.symm, h.entries.symm⟩

/-- The account is there after a quiet stretch too. -/
theorem LedgerQuiet.of_account {s s' : Store} (h : LedgerQuiet s s') {n : Nat}
    (hn : ∃ a ∈ s.accounts, a.pk = n) : ∃ a ∈ s'.accounts, a.pk = n := by
  obtain ⟨a, ha, rfl⟩ := hn
  obtain ⟨b, hb, hpk, -⟩ := h.symm.mem ha
  exact ⟨b, hb, hpk⟩

/-- **QUIET**: the invariant is about the ledger and the balances only. -/
theorem LedgerInv.quiet {s s' : Store} (hi : LedgerInv s) (h : LedgerQuiet s s') :
    LedgerInv s' where
  accountKeys := by
    have hpk := congrArg (List.map Prod.fst) h.accounts
    rw [List.map_map, List.map_map] at hpk
    show (s'.accounts.map (Prod.fst ∘ MockAccount.holding)).Nodup
    rw [hpk]
    exact hi.accountKeys
  ledgerKeys := by rw [h.ledgerAccounts]; exact hi.ledgerKeys
  journalKeys := by rw [h.journals]; exact hi.journalKeys
  ledgerOf l hl n hn := by
    rw [h.ledgerAccounts] at hl
    exact h.of_account (hi.ledgerOf l hl n hn)
  entryOf e he := by
    rw [h.entries] at he
    rw [h.ledgerAccounts, h.journals]
    exact hi.entryOf e he
  seedOf j hj n hn := by
    rw [h.journals] at hj
    exact h.of_account (hi.seedOf j hj n hn)
  balanced j hj := by
    rw [h.journals] at hj
    rw [entriesOf, h.entries]
    exact hi.balanced j hj
  ledger a ha := by
    obtain ⟨b, hb, hpk, -⟩ := h.mem ha
    rw [h.ledgerAccounts, ← hpk]
    exact hi.ledger b hb
  balance a ha l hl hof := by
    obtain ⟨b, hb, hpk, hbal⟩ := h.mem ha
    rw [h.ledgerAccounts] at hl
    rw [h.entryTotal, ← hbal]
    rw [← hpk] at hof
    exact hi.balance b hb l hl hof
  range a ha := by
    obtain ⟨b, hb, -, hbal⟩ := h.mem ha
    rw [← hbal]
    exact hi.range b hb
  seed a ha := by
    obtain ⟨b, hb, hpk, -⟩ := h.mem ha
    rw [h.journals, ← hpk]
    exact hi.seed b hb
  reserveOnly l hl hcode := by
    rw [h.ledgerAccounts] at hl
    exact hi.reserveOnly l hl hcode
  total := by
    have hbal := congrArg (List.map Prod.snd) h.accounts
    rw [List.map_map, List.map_map] at hbal
    have hlen := congrArg List.length h.accounts
    rw [List.length_map, List.length_map] at hlen
    rw [hlen, ← hi.total]
    exact congrArg List.sum hbal
  reserve := by
    have hlen := congrArg List.length h.accounts
    rw [List.length_map, List.length_map] at hlen
    rw [hlen, ← hi.reserve, reserveTotal, reserveTotal, h.ledgerAccounts]
    exact congrArg List.sum (List.map_congr_left fun l _ => h.entryTotal l.pk)

/-! ## Sums over keyed rows -/

section Rows

variable {ρ κ : Type} {key : ρ → κ} {rows : List ρ}

/-- Two readings of keyed rows that differ at one key differ by that row's. -/
theorem sum_map_change (g g' : ρ → Int) (hkeys : (rows.map key).Nodup) {r : ρ}
    (hr : r ∈ rows) (h : ∀ x ∈ rows, key x ≠ key r → g' x = g x) :
    (rows.map g').sum = (rows.map g).sum - g r + g' r := by
  induction rows with
  | nil => exact nomatch hr
  | cons x rows ih =>
      rw [List.map_cons, List.nodup_cons] at hkeys
      rw [List.map_cons, List.map_cons, List.sum_cons, List.sum_cons]
      rcases List.mem_cons.mp hr with rfl | hr
      · -- the key of the first row is not found again in the rest
        have hrest : rows.map g' = rows.map g := by
          refine List.map_congr_left fun y hy => h y (List.mem_cons_of_mem _ hy) fun e => ?_
          refine hkeys.1 ?_
          rw [← e]
          exact List.mem_map.mpr ⟨y, hy, rfl⟩
        rw [hrest]
        omega
      · have hx : key x ≠ key r := fun e => hkeys.1 (by
          rw [e]
          exact List.mem_map.mpr ⟨r, hr, rfl⟩)
        rw [ih hkeys.2 hr fun y hy => h y (List.mem_cons_of_mem _ hy),
          h x List.mem_cons_self hx]
        omega

/-- A row with the key of another is that row. -/
theorem eq_of_key (hkeys : (rows.map key).Nodup) {r r' : ρ} (hr : r ∈ rows)
    (hr' : r' ∈ rows) (h : key r = key r') : r = r' :=
  List.inj_on_of_nodup_map hkeys hr hr' h

end Rows

/-- New entries add their own amounts to the totals, and nothing else does. -/
theorem entryTotal_addEntries (es : List LedgerEntry) (n : Nat) (s s' : Store)
    (h : s'.entries = s.entries ++ es) :
    entryTotal n s' = entryTotal n s + ((es.filter (·.account == n)).map (·.amount)).sum := by
  rw [entryTotal, h, List.filter_append, List.map_append, List.sum_append, entryTotal]

/-- New entries join their own journal only. -/
theorem entriesOf_addEntries (es : List LedgerEntry) (j : Uuid) (s s' : Store)
    (h : s'.entries = s.entries ++ es) :
    entriesOf j s' = entriesOf j s ++ es.filter (·.journal == j) := by
  rw [entriesOf, h, List.filter_append, entriesOf]

/-- Entries of which none is on the account add nothing to it. -/
theorem total_of_other {es : List LedgerEntry} {n : Nat} (h : ∀ e ∈ es, e.account ≠ n) :
    ((es.filter (·.account == n)).map (·.amount)).sum = 0 := by
  rw [List.filter_eq_nil_iff.mpr fun e he hc => h e he (eq_of_beq hc)]
  rfl

section Facts

variable {s : Store} (hi : LedgerInv s)

include hi

/-- The one ledger account of an account. -/
theorem LedgerInv.ledger_unique {a : MockAccount} (ha : a ∈ s.accounts)
    {l l' : LedgerAccount} (hl : l ∈ s.ledgerAccounts) (hl' : l' ∈ s.ledgerAccounts)
    (hof : l.mockAccount = some a.pk) (hof' : l'.mockAccount = some a.pk) : l = l' := by
  obtain ⟨x, -, hx⟩ := hi.ledger a ha
  have hmem : ∀ y ∈ s.ledgerAccounts, y.mockAccount = some a.pk → y = x := by
    intro y hy hofy
    have h : y ∈ s.ledgerAccounts.filter (·.mockAccount == some a.pk) :=
      List.mem_filter.mpr ⟨hy, beq_iff_eq.mpr hofy⟩
    rw [hx] at h
    exact List.mem_singleton.mp h
  exact (hmem l hl hof).trans (hmem l' hl' hof').symm

/-- No entry is on an account that is not there. -/
theorem LedgerInv.no_entry {n : Nat} (hfree : ∀ l ∈ s.ledgerAccounts, l.pk ≠ n) :
    entryTotal n s = 0 := by
  refine total_of_other fun e he hn => ?_
  obtain ⟨⟨l, hl, hpk⟩, -⟩ := hi.entryOf e he
  exact hfree l hl (hpk.trans hn)

/-- No entry is of a journal that is not there. -/
theorem LedgerInv.no_journal {j : Uuid} (hfree : ∀ x ∈ s.journals, x.pk ≠ j) :
    entriesOf j s = [] := by
  refine List.filter_eq_nil_iff.mpr fun e he hj => ?_
  obtain ⟨-, x, hx, hpk⟩ := hi.entryOf e he
  exact hfree x hx (hpk.trans (eq_of_beq hj))

end Facts

/-- A key that nobody has. -/
theorem key_ne {ρ : Type} {rows : List ρ} {pk : ρ → Nat} {n : Nat}
    (h : (rows.any fun r => pk r == n) = false) : ∀ r ∈ rows, pk r ≠ n :=
  fun r hr e => List.any_eq_false.mp h r hr (beq_iff_eq.mpr e)

/-! ## Transfers -/

section Moved

variable {p : Platform} {c : Call} {held : List Lock} {s : Store} {m : Movement}

/-- The two entries of a movement. -/
def Movement.entries (m : Movement) : List LedgerEntry :=
  [{ journal := m.journal, account := m.debit.pk, amount := -m.amount },
   { journal := m.journal, account := m.credit.pk, amount := m.amount }]

/-- The balance of an account after a movement. -/
def Movement.rebalance (m : Movement) (a : MockAccount) : MockAccount :=
  if a.pk = m.recipient.pk then { a with balance := m.recipient.balance + m.amount }
  else if a.pk = m.sender.pk then { a with balance := m.sender.balance - m.amount }
  else a

/-- A movement opens no ledger account and books one journal. -/
theorem Movement.apply_ledger (m : Movement) (s : Store) :
    (m.apply s).ledgerAccounts = s.ledgerAccounts ∧
      (m.apply s).journals = s.journals ++ [{ pk := m.journal, kind := .transfer }] ∧
      (m.apply s).entries = s.entries ++ m.entries := by
  refine ⟨?_, ?_, ?_⟩ <;>
    simp only [Movement.apply, addTransferAudit, addRequest, addTransfer, addEntries,
      addJournal, setBalance, updateAccount, Movement.entries]

/-- The two balances are written at once, as a map over the accounts. -/
theorem Movement.apply_accounts (hne : m.sender.pk ≠ m.recipient.pk) :
    (m.apply s).accounts = s.accounts.map m.rebalance := by
  have h : (m.apply s).accounts =
      (s.accounts.map fun a => if a.pk = m.sender.pk then
          { a with balance := m.sender.balance - m.amount } else a).map fun a =>
        if a.pk = m.recipient.pk then
          { a with balance := m.recipient.balance + m.amount } else a := by
    simp only [Movement.apply, addTransferAudit, addRequest, addTransfer, addEntries,
      addJournal, setBalance, updateAccount]
  rw [h, List.map_map]
  refine List.map_congr_left fun a _ => ?_
  rw [Function.comp_apply, Movement.rebalance]
  by_cases hs : a.pk = m.sender.pk
  · have hr : a.pk ≠ m.recipient.pk := fun e => hne (hs.symm.trans e)
    rw [if_pos hs, if_neg hr]
  · rw [if_neg hs]

/-- A movement changes balances, never keys. -/
theorem Movement.rebalance_pk (m : Movement) (a : MockAccount) :
    (m.rebalance a).pk = a.pk := by
  rw [Movement.rebalance]
  split
  · rfl
  · split <;> rfl

/-- Sender and recipient are different accounts. -/
theorem MoveAllowed.ne (hkeys : (s.accounts.map (·.pk)).Nodup)
    (h : MoveAllowed p c held s m.sender m.recipient) : m.sender.pk ≠ m.recipient.pk := by
  intro e
  obtain ⟨u, hu, hm⟩ := h.other
  obtain ⟨a, ha, hida⟩ := List.mem_map.mp h.owner.mem
  obtain ⟨b, hb, hidb⟩ := List.mem_map.mp hm
  have hab : a = b := eq_of_key hkeys ha hb
    ((congrArg Prod.fst hida).trans (e.trans (congrArg Prod.fst hidb).symm))
  rw [hab] at hida
  exact hu ((congrArg Prod.snd hidb).symm.trans (congrArg Prod.snd hida))

/-- What a movement adds to a ledger account. -/
def Movement.delta (m : Movement) (pk : Nat) : Money :=
  if pk = m.recipient.pk then m.amount else if pk = m.sender.pk then -m.amount else 0

/-- The two entries of the journal add, at each account, what its balance moves by. -/
theorem MoveReady.entries_sum (hi : LedgerInv s) (h : MoveReady p c held s m)
    {a : MockAccount} (ha : a ∈ s.accounts) {l : LedgerAccount}
    (hl : l ∈ s.ledgerAccounts) (hof : l.mockAccount = some a.pk) :
    ((m.entries.filter (·.account == l.pk)).map (·.amount)).sum = m.delta a.pk := by
  have hne : m.sender.pk ≠ m.recipient.pk := h.toMoveAllowed.ne hi.accountKeys
  -- which of the two entries is on `l` is decided by whose account it is
  have side : ∀ {x : MockAccount} {y : LedgerAccount}, x ∈ s.accounts →
      y ∈ s.ledgerAccounts → y.mockAccount = some x.pk → (y.pk = l.pk ↔ a.pk = x.pk) := by
    intro x y hx hy hofy
    constructor
    · intro e
      rw [eq_of_key hi.ledgerKeys hy hl e, hof] at hofy
      exact Option.some.inj hofy
    · intro e
      rw [hi.ledger_unique ha hy hl (by rw [hofy, e]) hof]
  have hdebit := side h.senderRow h.debit h.debitOf
  have hcredit := side h.recipientRow h.credit h.creditOf
  rw [Movement.delta, Movement.entries, List.filter_cons, List.filter_cons, List.filter_nil]
  by_cases hr : a.pk = m.recipient.pk
  · have hs : ¬ a.pk = m.sender.pk := fun e => hne (e.symm.trans hr)
    rw [if_neg (fun e => hs (hdebit.mp (eq_of_beq e))),
      if_pos (beq_iff_eq.mpr (hcredit.mpr hr)), if_pos hr]
    exact Int.add_zero _
  · rw [if_neg hr]
    by_cases hs : a.pk = m.sender.pk
    · rw [if_pos (beq_iff_eq.mpr (hdebit.mpr hs)),
        if_neg (fun e => hr (hcredit.mp (eq_of_beq e))), if_pos hs]
      exact Int.add_zero _
    · rw [if_neg (fun e => hs (hdebit.mp (eq_of_beq e))),
        if_neg (fun e => hr (hcredit.mp (eq_of_beq e))), if_neg hs]
      rfl

/-- The balance that is written is the old one and the entry. -/
theorem MoveReady.rebalance_balance (hi : LedgerInv s) (h : MoveReady p c held s m)
    {a : MockAccount} (ha : a ∈ s.accounts) :
    (m.rebalance a).balance = a.balance + m.delta a.pk := by
  rw [Movement.rebalance, Movement.delta]
  by_cases hr : a.pk = m.recipient.pk
  · rw [if_pos hr, if_pos hr, eq_of_key hi.accountKeys ha h.recipientRow hr]
  · rw [if_neg hr, if_neg hr]
    by_cases hs : a.pk = m.sender.pk
    · rw [if_pos hs, if_pos hs, eq_of_key hi.accountKeys ha h.senderRow hs]
      exact Int.sub_eq_add_neg
    · rw [if_neg hs, if_neg hs, Int.add_zero]

/-- The balance of an account once the sender is debited. -/
def Movement.debited (m : Movement) (a : MockAccount) : Money :=
  if a.pk = m.sender.pk then m.sender.balance - m.amount else a.balance

/-- What one account loses the other gains. -/
theorem MoveReady.total (hi : LedgerInv s) (h : MoveReady p c held s m) :
    ((m.apply s).accounts.map (·.balance)).sum = (s.accounts.map (·.balance)).sum := by
  have hne : m.sender.pk ≠ m.recipient.pk := h.toMoveAllowed.ne hi.accountKeys
  rw [Movement.apply_accounts hne, List.map_map]
  -- first the sender, then the recipient
  have h1 := sum_map_change (fun a => a.balance) m.debited hi.accountKeys h.senderRow
    fun x _ hx => by rw [Movement.debited, if_neg hx]
  have h2 := sum_map_change m.debited ((fun a => a.balance) ∘ m.rebalance) hi.accountKeys
    h.recipientRow fun x _ hx => by
      rw [Function.comp_apply, Movement.rebalance, Movement.debited, if_neg hx]
      split <;> rfl
  have hs : m.debited m.sender = m.sender.balance - m.amount := if_pos rfl
  have hr : m.debited m.recipient = m.recipient.balance := if_neg fun e => hne e.symm
  have hb : ((fun a => a.balance) ∘ m.rebalance) m.recipient =
      m.recipient.balance + m.amount := by
    rw [Function.comp_apply, Movement.rebalance, if_pos rfl]
  rw [h2, h1, hs, hr, hb]
  linarith

/-- **RANGE**: no movement that was checked leaves a balance below zero or above the limit. -/
theorem MoveReady.range (hi : LedgerInv s) (h : MoveReady p c held s m)
    (hamount : 0 < c.amount) {a : MockAccount} (ha : a ∈ s.accounts) :
    0 ≤ (m.rebalance a).balance ∧ (m.rebalance a).balance ≤ MAX_BALANCE := by
  have henough := h.enough
  have hbelow := h.below
  have hold := hi.range a ha
  have hsender := hi.range m.sender h.senderRow
  have hrecipient := hi.range m.recipient h.recipientRow
  rw [← h.amount] at henough hbelow hamount
  rw [Movement.rebalance]
  split
  · exact ⟨by show 0 ≤ m.recipient.balance + m.amount; linarith, hbelow⟩
  · split
    · exact ⟨by show 0 ≤ m.sender.balance - m.amount; linarith,
        by show m.sender.balance - m.amount ≤ MAX_BALANCE; linarith⟩
    · exact hold

/-- **TRANSFER**: a movement keeps the ledger consistent. -/
theorem LedgerInv.moved (hi : LedgerInv s) (h : MoveReady p c held s m)
    (hamount : 0 < c.amount) : LedgerInv (m.apply s) := by
  obtain ⟨hledger, hjournals, hentries⟩ := m.apply_ledger s
  have haccounts : (m.apply s).accounts = s.accounts.map m.rebalance :=
    Movement.apply_accounts (h.toMoveAllowed.ne hi.accountKeys)
  have hkeys : ((m.apply s).accounts.map (·.pk)) = s.accounts.map (·.pk) := by
    rw [haccounts, List.map_map]
    exact List.map_congr_left fun a _ => m.rebalance_pk a
  -- a movement writes balances, so that every account is still there
  have hthere : ∀ n, (∃ a ∈ s.accounts, a.pk = n) → ∃ a ∈ (m.apply s).accounts, a.pk = n := by
    rintro n ⟨a, ha, rfl⟩
    rw [haccounts]
    exact ⟨m.rebalance a, List.mem_map.mpr ⟨a, ha, rfl⟩, m.rebalance_pk a⟩
  have hnew : ∀ x ∈ s.journals, x.pk ≠ m.journal := key_ne h.journalFree
  exact {
    accountKeys := by
      rw [hkeys]
      exact hi.accountKeys
    ledgerKeys := by
      rw [hledger]
      exact hi.ledgerKeys
    journalKeys := by
      rw [hjournals, List.map_append, List.nodup_append]
      refine ⟨hi.journalKeys, List.nodup_singleton _, ?_⟩
      rintro _ hx _ hy rfl
      obtain ⟨x, hx, hpk⟩ := List.mem_map.mp hx
      exact hnew x hx (hpk.trans (List.mem_singleton.mp hy))
    ledgerOf := fun l hl n hn => by
      rw [hledger] at hl
      exact hthere n (hi.ledgerOf l hl n hn)
    entryOf := fun e he => by
      rw [hentries] at he
      rw [hledger, hjournals]
      rcases List.mem_append.mp he with he | he
      · obtain ⟨hl, x, hx, hpk⟩ := hi.entryOf e he
        exact ⟨hl, x, List.mem_append_left _ hx, hpk⟩
      · refine ⟨?_, _, List.mem_append_right _ (List.mem_singleton_self _), ?_⟩
        · rcases List.mem_cons.mp he with rfl | he
          · exact ⟨m.debit, h.debit, rfl⟩
          · rw [List.mem_singleton.mp he]
            exact ⟨m.credit, h.credit, rfl⟩
        · rcases List.mem_cons.mp he with rfl | he
          · rfl
          · rw [List.mem_singleton.mp he]
    seedOf := fun j hj n hn => by
      rw [hjournals] at hj
      rcases List.mem_append.mp hj with hj | hj
      · exact hthere n (hi.seedOf j hj n hn)
      · rw [List.mem_singleton.mp hj] at hn
        exact nomatch hn
    balanced := fun j hj => by
      rw [hjournals] at hj
      rw [entriesOf_addEntries _ _ _ _ hentries, Movement.entries, List.filter_cons,
        List.filter_cons, List.filter_nil]
      rcases List.mem_append.mp hj with hj | hj
      · have hne : ¬ (m.journal == j.pk) = true := fun e => hnew j hj (eq_of_beq e).symm
        rw [if_neg hne, if_neg hne, List.append_nil]
        exact hi.balanced j hj
      · rw [List.mem_singleton.mp hj, if_pos (beq_self_eq_true _),
          if_pos (beq_self_eq_true _), hi.no_journal hnew, List.nil_append]
        refine ⟨rfl, ?_⟩
        show -m.amount + (m.amount + 0) = 0
        linarith
    ledger := fun a ha => by
      rw [haccounts] at ha
      obtain ⟨b, hb, rfl⟩ := List.mem_map.mp ha
      rw [hledger, m.rebalance_pk]
      exact hi.ledger b hb
    balance := fun a ha l hl hof => by
      rw [haccounts] at ha
      obtain ⟨b, hb, rfl⟩ := List.mem_map.mp ha
      rw [hledger] at hl
      rw [m.rebalance_pk] at hof
      rw [entryTotal_addEntries _ _ _ _ hentries, h.entries_sum hi hb hl hof,
        h.rebalance_balance hi hb, hi.balance b hb l hl hof]
    range := fun a ha => by
      rw [haccounts] at ha
      obtain ⟨b, hb, rfl⟩ := List.mem_map.mp ha
      exact h.range hi hamount hb
    seed := fun a ha => by
      rw [haccounts] at ha
      obtain ⟨b, hb, rfl⟩ := List.mem_map.mp ha
      rw [hjournals, m.rebalance_pk, List.filter_append, List.length_append, hi.seed b hb]
      rfl
    reserveOnly := fun l hl hcode => by
      rw [hledger] at hl
      exact hi.reserveOnly l hl hcode
    total := by
      rw [h.total hi, haccounts, List.length_map]
      exact hi.total
    reserve := by
      rw [haccounts, List.length_map, ← hi.reserve, reserveTotal, reserveTotal, hledger]
      refine congrArg List.sum (List.map_congr_left fun l hl => ?_)
      -- neither entry is on the reserve
      rw [List.mem_filter, beq_iff_eq] at hl
      have hnone := hi.reserveOnly l hl.1 hl.2
      rw [entryTotal_addEntries _ _ _ _ hentries, total_of_other fun e he hpk => ?_,
        Int.add_zero]
      rcases List.mem_cons.mp he with rfl | he
      · have hof := h.debitOf
        rw [eq_of_key hi.ledgerKeys h.debit hl.1 hpk, hnone] at hof
        exact nomatch hof
      · rw [List.mem_singleton.mp he] at hpk
        have hof := h.creditOf
        rw [eq_of_key hi.ledgerKeys h.credit hl.1 hpk, hnone] at hof
        exact nomatch hof }

end Moved

/-! ## Openings -/

/-- A reserve without entries changes nothing. -/
theorem LedgerInv.reserved {s : Store} (hi : LedgerInv s) {l : LedgerAccount}
    (hof : l.mockAccount = none) (hfree : ∀ x ∈ s.ledgerAccounts, x.pk ≠ l.pk) :
    LedgerInv (addLedgerAccount l s) where
  accountKeys := hi.accountKeys
  ledgerKeys := by
    show ((s.ledgerAccounts ++ [l]).map (·.pk)).Nodup
    rw [List.map_append, List.nodup_append]
    refine ⟨hi.ledgerKeys, List.nodup_singleton _, ?_⟩
    rintro _ hx _ hy rfl
    obtain ⟨x, hx, hpk⟩ := List.mem_map.mp hx
    exact hfree x hx (hpk.trans (List.mem_singleton.mp hy))
  journalKeys := hi.journalKeys
  ledgerOf x hx n hn := by
    rcases List.mem_append.mp hx with hx | hx
    · exact hi.ledgerOf x hx n hn
    · rw [List.mem_singleton.mp hx, hof] at hn
      exact nomatch hn
  entryOf e he := by
    obtain ⟨⟨x, hx, hpk⟩, hj⟩ := hi.entryOf e he
    exact ⟨⟨x, List.mem_append_left _ hx, hpk⟩, hj⟩
  seedOf := hi.seedOf
  balanced := hi.balanced
  ledger a ha := by
    obtain ⟨x, hkind, hx⟩ := hi.ledger a ha
    refine ⟨x, hkind, ?_⟩
    show (s.ledgerAccounts ++ [l]).filter (·.mockAccount == some a.pk) = [x]
    rw [List.filter_append, hx, List.filter_cons, hof]
    rfl
  balance a ha x hx hofx := by
    rcases List.mem_append.mp hx with hx | hx
    · exact hi.balance a ha x hx hofx
    · rw [List.mem_singleton.mp hx, hof] at hofx
      exact nomatch hofx
  range := hi.range
  seed := hi.seed
  reserveOnly x hx hcode := by
    rcases List.mem_append.mp hx with hx | hx
    · exact hi.reserveOnly x hx hcode
    · rw [List.mem_singleton.mp hx]
      exact hof
  total := hi.total
  reserve := by
    refine Eq.trans ?_ hi.reserve
    show (((s.ledgerAccounts ++ [l]).filter (·.code == "SEED_RESERVE")).map
      fun x => entryTotal x.pk s).sum = _
    rw [List.filter_append, List.map_append, List.sum_append, List.filter_cons]
    -- the new row has no entry yet
    split
    · show _ + (entryTotal l.pk s + 0) = _
      rw [hi.no_entry hfree, Int.add_zero, Int.add_zero, reserveTotal]
    · exact Int.add_zero _

/-- What an account is opened on: its reserve is there, and its keys are new. -/
structure SeedReady (s : Store) (o : Opening) : Prop where
  accountBalance : o.account.balance = SEED_AMOUNT
  ledgerKind : o.ledger.kind = .user
  ledgerOf : o.ledger.mockAccount = some o.account.pk
  reserveCode : o.reserve.code = "SEED_RESERVE"
  reserveRow : o.reserve ∈ s.ledgerAccounts
  accountNew : ∀ a ∈ s.accounts, a.pk ≠ o.account.pk
  ledgerNew : ∀ l ∈ s.ledgerAccounts, l.pk ≠ o.ledger.pk
  codeNew : o.ledger.code ≠ "SEED_RESERVE"
  journalNew : ∀ j ∈ s.journals, j.pk ≠ o.journal

/-- The two entries of a seed. -/
def Opening.entries (o : Opening) : List LedgerEntry :=
  [{ journal := o.journal, account := o.ledger.pk, amount := SEED_AMOUNT },
   { journal := o.journal, account := o.reserve.pk, amount := -SEED_AMOUNT }]

/-- The seed journal. -/
def Opening.seedJournal (o : Opening) : LedgerJournal :=
  { pk := o.journal, kind := .seedIssue, targetMockAccount := some o.account.pk }

/-- The rows of an opening but the reserve and the safety state. -/
def Opening.seed (o : Opening) (s : Store) : Store :=
  addEntries o.entries <| addJournal o.seedJournal <| addLedgerAccount o.ledger <|
  addAccount o.account s

section Seeded

variable {s : Store} {o : Opening}

/-- The opening entries add the opening balance to the total of the account. -/
theorem Opening.seed_entryTotal (n : Nat) :
    entryTotal n (o.seed s) =
      entryTotal n s + ((o.entries.filter (·.account == n)).map (·.amount)).sum :=
  entryTotal_addEntries _ _ _ _ rfl

/-- A ledger account that is neither the new one nor the reserve gets no entry. -/
theorem SeedReady.other (h : SeedReady s o) {l : LedgerAccount}
    (hl : l ∈ s.ledgerAccounts) (hr : l.pk ≠ o.reserve.pk) :
    entryTotal l.pk (o.seed s) = entryTotal l.pk s := by
  rw [Opening.seed_entryTotal, total_of_other fun e he hpk => ?_, Int.add_zero]
  rcases List.mem_cons.mp he with rfl | he
  · exact h.ledgerNew l hl hpk.symm
  · rw [List.mem_singleton.mp he] at hpk
    exact hr hpk.symm

/-- The reserve is debited by the seed. -/
theorem SeedReady.reserved (h : SeedReady s o) :
    entryTotal o.reserve.pk (o.seed s) = entryTotal o.reserve.pk s - SEED_AMOUNT := by
  have hne : ¬ (o.ledger.pk == o.reserve.pk) = true :=
    fun e => h.ledgerNew _ h.reserveRow (eq_of_beq e).symm
  rw [Opening.seed_entryTotal, Opening.entries, List.filter_cons, List.filter_cons,
    if_neg hne, if_pos (beq_self_eq_true _)]
  rfl

/-- The new ledger account holds the seed. -/
theorem SeedReady.seeded (hi : LedgerInv s) (h : SeedReady s o) :
    entryTotal o.ledger.pk (o.seed s) = SEED_AMOUNT := by
  have hne : ¬ (o.reserve.pk == o.ledger.pk) = true :=
    fun e => h.ledgerNew _ h.reserveRow (eq_of_beq e)
  rw [Opening.seed_entryTotal, hi.no_entry h.ledgerNew, Opening.entries, List.filter_cons,
    List.filter_cons, if_neg hne, if_pos (beq_self_eq_true _)]
  rfl

/-- All of the reserve is debited by the seed. -/
theorem SeedReady.reserveTotal (hi : LedgerInv s) (h : SeedReady s o) :
    Market.reserveTotal (o.seed s) = Market.reserveTotal s - SEED_AMOUNT := by
  have hrows : (o.seed s).ledgerAccounts.filter (·.code == "SEED_RESERVE") =
      s.ledgerAccounts.filter (·.code == "SEED_RESERVE") := by
    show (s.ledgerAccounts ++ [o.ledger]).filter (·.code == "SEED_RESERVE") = _
    rw [List.filter_append, List.filter_cons,
      if_neg fun e => h.codeNew (eq_of_beq e), List.filter_nil, List.append_nil]
  have hkeys : ((s.ledgerAccounts.filter (·.code == "SEED_RESERVE")).map (·.pk)).Nodup :=
    (List.filter_sublist.map _).nodup hi.ledgerKeys
  have hrow : o.reserve ∈ s.ledgerAccounts.filter (·.code == "SEED_RESERVE") :=
    List.mem_filter.mpr ⟨h.reserveRow, beq_iff_eq.mpr h.reserveCode⟩
  rw [Market.reserveTotal, hrows, sum_map_change (fun l => entryTotal l.pk s)
    (fun l => entryTotal l.pk (o.seed s)) hkeys hrow fun l hl hne =>
      h.other (List.mem_filter.mp hl).1 hne, h.reserved, Market.reserveTotal]
  linarith

/-- **OPENING**: a new account out of the reserve keeps the ledger consistent. -/
theorem LedgerInv.seeded (hi : LedgerInv s) (h : SeedReady s o) : LedgerInv (o.seed s) where
  accountKeys := by
    show ((s.accounts ++ [o.account]).map (·.pk)).Nodup
    rw [List.map_append, List.nodup_append]
    refine ⟨hi.accountKeys, List.nodup_singleton _, ?_⟩
    rintro _ hx _ hy rfl
    obtain ⟨x, hx, hpk⟩ := List.mem_map.mp hx
    exact h.accountNew x hx (hpk.trans (List.mem_singleton.mp hy))
  ledgerKeys := by
    show ((s.ledgerAccounts ++ [o.ledger]).map (·.pk)).Nodup
    rw [List.map_append, List.nodup_append]
    refine ⟨hi.ledgerKeys, List.nodup_singleton _, ?_⟩
    rintro _ hx _ hy rfl
    obtain ⟨x, hx, hpk⟩ := List.mem_map.mp hx
    exact h.ledgerNew x hx (hpk.trans (List.mem_singleton.mp hy))
  journalKeys := by
    show ((s.journals ++ [o.seedJournal]).map (·.pk)).Nodup
    rw [List.map_append, List.nodup_append]
    refine ⟨hi.journalKeys, List.nodup_singleton _, ?_⟩
    rintro _ hx _ hy rfl
    obtain ⟨x, hx, hpk⟩ := List.mem_map.mp hx
    exact h.journalNew x hx (hpk.trans (List.mem_singleton.mp hy))
  ledgerOf l hl n hn := by
    rcases List.mem_append.mp hl with hl | hl
    · obtain ⟨a, ha, hpk⟩ := hi.ledgerOf l hl n hn
      exact ⟨a, List.mem_append_left _ ha, hpk⟩
    · rw [List.mem_singleton.mp hl, h.ledgerOf] at hn
      exact ⟨o.account, List.mem_append_right _ (List.mem_singleton_self _),
        Option.some.inj hn⟩
  entryOf e he := by
    rcases List.mem_append.mp he with he | he
    · obtain ⟨⟨l, hl, hpk⟩, j, hj, hjpk⟩ := hi.entryOf e he
      exact ⟨⟨l, List.mem_append_left _ hl, hpk⟩, j, List.mem_append_left _ hj, hjpk⟩
    · refine ⟨?_, o.seedJournal, List.mem_append_right _ (List.mem_singleton_self _), ?_⟩
      · rcases List.mem_cons.mp he with rfl | he
        · exact ⟨o.ledger, List.mem_append_right _ (List.mem_singleton_self _), rfl⟩
        · rw [List.mem_singleton.mp he]
          exact ⟨o.reserve, List.mem_append_left _ h.reserveRow, rfl⟩
      · rcases List.mem_cons.mp he with rfl | he
        · rfl
        · rw [List.mem_singleton.mp he]
          rfl
  seedOf j hj n hn := by
    rcases List.mem_append.mp hj with hj | hj
    · obtain ⟨a, ha, hpk⟩ := hi.seedOf j hj n hn
      exact ⟨a, List.mem_append_left _ ha, hpk⟩
    · rw [List.mem_singleton.mp hj, LedgerJournal.seeds, Bool.and_eq_true] at hn
      exact ⟨o.account, List.mem_append_right _ (List.mem_singleton_self _),
        Option.some.inj (eq_of_beq hn.2)⟩
  balanced j hj := by
    rw [entriesOf_addEntries o.entries j.pk s (o.seed s) rfl, Opening.entries,
      List.filter_cons, List.filter_cons, List.filter_nil]
    rcases List.mem_append.mp hj with hj | hj
    · have hne : ¬ (o.journal == j.pk) = true := fun e => h.journalNew j hj (eq_of_beq e).symm
      rw [if_neg hne, if_neg hne, List.append_nil]
      exact hi.balanced j hj
    · rw [List.mem_singleton.mp hj, Opening.seedJournal, if_pos (beq_self_eq_true _),
        if_pos (beq_self_eq_true _), hi.no_journal h.journalNew, List.nil_append]
      exact ⟨rfl, rfl⟩
  ledger a ha := by
    show ∃ l, l.kind = .user ∧
      (s.ledgerAccounts ++ [o.ledger]).filter (·.mockAccount == some a.pk) = [l]
    rw [List.filter_append, List.filter_cons, List.filter_nil]
    rcases List.mem_append.mp ha with ha | ha
    · have hne : ¬ (o.ledger.mockAccount == some a.pk) = true := fun e => by
        rw [beq_iff_eq, h.ledgerOf] at e
        exact h.accountNew a ha (Option.some.inj e).symm
      rw [if_neg hne, List.append_nil]
      exact hi.ledger a ha
    · rw [List.mem_singleton.mp ha, if_pos (beq_iff_eq.mpr h.ledgerOf),
        List.filter_eq_nil_iff.mpr fun l hl e => ?_]
      · exact ⟨o.ledger, h.ledgerKind, rfl⟩
      · -- no ledger account is of an account that is not there yet
        obtain ⟨b, hb, hpk⟩ := hi.ledgerOf l hl _ (eq_of_beq e)
        exact h.accountNew b hb hpk
  balance a ha l hl hof := by
    rcases List.mem_append.mp ha with ha | ha
    · rcases List.mem_append.mp hl with hl | hl
      · rw [h.other hl fun e => ?_]
        · exact hi.balance a ha l hl hof
        · rw [eq_of_key hi.ledgerKeys hl h.reserveRow e,
            hi.reserveOnly _ h.reserveRow h.reserveCode] at hof
          exact nomatch hof
      · rw [List.mem_singleton.mp hl, h.ledgerOf] at hof
        exact absurd (Option.some.inj hof).symm (h.accountNew a ha)
    · rw [List.mem_singleton.mp ha] at hof ⊢
      rcases List.mem_append.mp hl with hl | hl
      · obtain ⟨b, hb, hpk⟩ := hi.ledgerOf l hl _ hof
        exact absurd hpk (h.accountNew b hb)
      · rw [List.mem_singleton.mp hl, h.seeded hi]
        exact h.accountBalance
  range a ha := by
    rcases List.mem_append.mp ha with ha | ha
    · exact hi.range a ha
    · rw [List.mem_singleton.mp ha, h.accountBalance]
      decide
  seed a ha := by
    show ((s.journals ++ [o.seedJournal]).filter (·.seeds a.pk)).length = 1
    rw [List.filter_append, List.filter_cons, List.filter_nil]
    rcases List.mem_append.mp ha with ha | ha
    · have hne : ¬ o.seedJournal.seeds a.pk = true := fun e => by
        rw [LedgerJournal.seeds, Bool.and_eq_true] at e
        exact h.accountNew a ha (Option.some.inj (eq_of_beq e.2)).symm
      rw [if_neg hne, List.append_nil]
      exact hi.seed a ha
    · rw [List.mem_singleton.mp ha, List.filter_eq_nil_iff.mpr fun j hj e => ?_, if_pos]
      · rfl
      · rw [LedgerJournal.seeds, Bool.and_eq_true]
        exact ⟨rfl, beq_self_eq_true _⟩
      · obtain ⟨b, hb, hpk⟩ := hi.seedOf j hj _ e
        exact h.accountNew b hb hpk
  reserveOnly l hl hcode := by
    rcases List.mem_append.mp hl with hl | hl
    · exact hi.reserveOnly l hl hcode
    · rw [List.mem_singleton.mp hl] at hcode
      exact absurd hcode h.codeNew
  total := by
    show ((s.accounts ++ [o.account]).map (·.balance)).sum =
      SEED_AMOUNT * (s.accounts ++ [o.account]).length
    rw [List.map_append, List.sum_append, hi.total, List.length_append, List.map_cons,
      List.map_nil, List.sum_singleton, h.accountBalance, List.length_singleton]
    push_cast
    linarith
  reserve := by
    rw [h.reserveTotal hi, hi.reserve]
    show _ = -(SEED_AMOUNT * (s.accounts ++ [o.account]).length)
    rw [List.length_append, List.length_singleton]
    push_cast
    linarith

end Seeded

/-- What an opening checks is what its entries need. -/
theorem OpeningReady.seedReady {user : Nat} {held : List Lock} {s : Store} {o : Opening}
    (h : OpeningReady user held s o) :
    SeedReady (whenNew o.newReserve (addLedgerAccount o.reserve) s) o := by
  have hledger := key_ne h.ledgerFree.free
  have haccount := key_ne h.accountFree.free
  have hjournal := key_ne h.journalFree.free
  have hcode := h.codeNew
  rw [h.reserveCode] at hcode
  cases hr : o.newReserve with
  | false =>
      exact ⟨h.accountBalance, h.ledgerKind, h.ledgerOf, h.reserveCode, h.reserveOld hr,
        haccount, hledger, hcode, hjournal⟩
  | true =>
      refine ⟨h.accountBalance, h.ledgerKind, h.ledgerOf, h.reserveCode,
        List.mem_append_right _ (List.mem_singleton_self _), haccount, ?_, hcode, hjournal⟩
      intro l hl
      rcases List.mem_append.mp hl with hl | hl
      · exact hledger l hl
      · rw [List.mem_singleton.mp hl]
        exact fun e => h.ledgerNew e.symm

/-- An opening keeps the ledger consistent. -/
theorem LedgerInv.opened {user : Nat} {held : List Lock} {s : Store} {o : Opening}
    (hi : LedgerInv s) (h : OpeningReady user held s o) : LedgerInv (o.apply s) := by
  have hreserve : LedgerInv (whenNew o.newReserve (addLedgerAccount o.reserve) s) := by
    cases hr : o.newReserve with
    | false => exact hi
    | true =>
        obtain ⟨-, hof, hfree, -⟩ := h.reserveNew hr
        exact hi.reserved hof (key_ne hfree.free)
  have hseed := hreserve.seeded h.seedReady
  refine hseed.quiet ?_
  rw [Opening.apply]
  cases o.newSafety <;> exact ⟨rfl, rfl, rfl, rfl⟩

end Market
