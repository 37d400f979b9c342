import Marketplace.DoubleCounting
import Marketplace.ExactlyOnce
import Marketplace.LedgerRuns

/-! # The check of the ledger is adequate

    Every entry is in one journal and in one ledger account.  Counted by journals, the
    entries of a store without mismatches come to nothing; counted by ledger accounts,
    they come to the balances and what was issued.  This is so of every store that the
    constraints of the tables allow, however it came about. -/

namespace Market

open TxnProgram TxnRuns

variable {s : Store} {ids : Nat → Nat} {now : Time}

/-- What the constraints of the tables say, and that every account has its ledger account. -/
structure LedgerTables (s : Store) : Prop where
  accounts : (s.accounts.map (·.pk)).Nodup
  ledgerAccounts : (s.ledgerAccounts.map (·.pk)).Nodup
  journals : (s.journals.map (·.pk)).Nodup
  oneToOne : ∀ l ∈ s.ledgerAccounts, ∀ l' ∈ s.ledgerAccounts, ∀ n,
    l.mockAccount = some n → l'.mockAccount = some n → l = l'
  kinds : ∀ l ∈ s.ledgerAccounts, l.kind = .systemIssuance ↔ l.mockAccount = none
  accountOf : ∀ l ∈ s.ledgerAccounts, ∀ n, l.mockAccount = some n → n ∈ s.accounts.map (·.pk)
  journalOf : ∀ e ∈ s.entries, e.journal ∈ s.journals.map (·.pk)
  ledgerOf : ∀ e ∈ s.entries, e.account ∈ s.ledgerAccounts.map (·.pk)
  complete : ∀ a ∈ s.accounts, ∃ l ∈ s.ledgerAccounts, l.mockAccount = some a.pk

/-- The entries of the ledger accounts of the system. -/
def issuedEntries (s : Store) : List LedgerEntry :=
  s.entries.filter fun e =>
    s.ledgerAccounts.any fun l => l.kind == .systemIssuance && l.pk == e.account

/-! ## What the check finds -/

theorem call_ledgerMismatches :
    call (atomic ledgerMismatches) ids now s = (mismatchesOf s, s) := by
  have hends : Ends validateBalancedJournal ledgerMismatches ids s now now (mismatchesOf s)
      ids id := ends_ledgerMismatches
  cases h : mismatchesOf s with
  | ok ms =>
      rw [h] at hends
      exact call_look hends
  | error e =>
      rw [h] at hends
      exact call_error hends

/-- The ledger account that the check looks at. -/
theorem LedgerTables.find (h : LedgerTables s) {a : MockAccount} (ha : a ∈ s.accounts) :
    ∃ l ∈ s.ledgerAccounts, l.mockAccount = some a.pk ∧
      s.ledgerAccounts.find? (·.mockAccount == some a.pk) = some l := by
  obtain ⟨l, hl, hof⟩ := h.complete a ha
  cases hfind : s.ledgerAccounts.find? (·.mockAccount == some a.pk) with
  | none =>
      have hnot := List.find?_eq_none.mp hfind l hl
      rw [hof] at hnot
      exact absurd (beq_self_eq_true _) hnot
  | some l' =>
      have hof' := List.find?_some hfind
      rw [beq_iff_eq] at hof'
      exact ⟨l', List.mem_of_find?_eq_some hfind, hof', rfl⟩

/-- The balances that differ are reported, and nothing else. -/
theorem accountMismatchesOf_found :
    ∀ rows : List (MockAccount × Option LedgerAccount), (∀ row ∈ rows, row.2.isSome) →
      ∃ ms, accountMismatchesOf s rows = .ok ms ∧
        (ms = [] ↔ ∀ a l, (a, some l) ∈ rows → entryTotal l.pk s = a.balance)
  | [], _ => ⟨[], rfl, fun _ _ _ h => (nomatch h), fun _ => rfl⟩
  | (_, none) :: _, h => nomatch h _ List.mem_cons_self
  | (a, some l) :: rest, h => by
      obtain ⟨ms, hms, hiff⟩ := accountMismatchesOf_found rest fun row hrow =>
        h row (List.mem_cons_of_mem _ hrow)
      rw [accountMismatchesOf, hms]
      refine ⟨if entryTotal l.pk s != a.balance then ("account:" ++ toString a.pk) :: ms
        else ms, rfl, ?_⟩
      by_cases heq : entryTotal l.pk s = a.balance
      · rw [heq, bne_self_eq_false, if_neg Bool.false_ne_true, hiff]
        constructor
        · intro hrest a' l' hmem
          rcases List.mem_cons.mp hmem with hsame | hmem
          · obtain ⟨rfl, hl⟩ := Prod.mk.inj hsame
            rw [Option.some.inj hl]
            exact heq
          · exact hrest a' l' hmem
        · intro hall a' l' hmem
          exact hall a' l' (List.mem_cons_of_mem _ hmem)
      · rw [if_pos (bne_iff_ne.mpr heq)]
        constructor
        · intro hnil
          cases hnil
        · intro hall
          exact absurd (hall a l List.mem_cons_self) heq

/-- A journal is in order: two entries that come to nothing. -/
def Balanced (s : Store) (n : Uuid) : Prop :=
  (s.entries.filter (·.journal == n)).length = 2 ∧
    ((s.entries.filter (·.journal == n)).map (·.amount)).sum = 0

/-- An account is in order: it has what its entries come to. -/
def Reconciled (s : Store) (a : MockAccount) : Prop :=
  ∀ l ∈ s.ledgerAccounts, l.mockAccount = some a.pk → a.balance = entryTotal l.pk s

theorem unbalancedJournals_eq_nil :
    unbalancedJournals s = [] ↔ ∀ j ∈ s.journals, Balanced s j.pk := by
  rw [unbalancedJournals, List.filter_eq_nil_iff]
  refine forall_congr' fun j => forall_congr' fun hj => ?_
  rw [Balanced, Bool.not_eq_true, Bool.or_eq_false_iff, bne_eq_false_iff_eq,
    bne_eq_false_iff_eq]

/-- **WHAT THE CHECK SAYS**: it answers, and it finds nothing exactly when all journals and
    all accounts are in order. -/
theorem LedgerTables.mismatches (h : LedgerTables s) : ∃ ms, mismatchesOf s = .ok ms ∧
    (ms = [] ↔ (∀ j ∈ s.journals, Balanced s j.pk) ∧ ∀ a ∈ s.accounts, Reconciled s a) := by
  obtain ⟨ms, hms, hiff⟩ := accountMismatchesOf_found (s := s) (s.accounts.map fun a =>
      (a, s.ledgerAccounts.find? (·.mockAccount == some a.pk))) fun row hrow => by
    obtain ⟨a, ha, rfl⟩ := List.mem_map.mp hrow
    obtain ⟨l, -, -, hfind⟩ := h.find ha
    show (s.ledgerAccounts.find? _).isSome = true
    rw [hfind]
    rfl
  refine ⟨(unbalancedJournals s).map (fun j => uuidStr j.pk) ++ ms, ?_, ?_⟩
  · rw [mismatchesOf, hms]
    rfl
  · rw [List.append_eq_nil_iff, List.map_eq_nil_iff, unbalancedJournals_eq_nil, hiff]
    refine and_congr_right fun _ => ⟨fun hall a ha l hl hof => ?_, fun hall a l hmem => ?_⟩
    · obtain ⟨l', hl', hof', hfind⟩ := h.find ha
      rw [h.oneToOne l hl l' hl' a.pk hof hof']
      refine (hall a l' (List.mem_map.mpr ⟨a, ha, ?_⟩)).symm
      rw [hfind]
    · obtain ⟨a', ha, hsame⟩ := List.mem_map.mp hmem
      obtain ⟨l', hl', hof', hfind⟩ := h.find ha
      rw [hfind] at hsame
      obtain ⟨rfl, hl⟩ := Prod.mk.inj hsame
      rw [← Option.some.inj hl]
      exact (hall a' ha l' hl' hof').symm

/-! ## Counting twice -/

/-- By journals, the entries come to nothing. -/
theorem LedgerTables.entries_sum (h : LedgerTables s)
    (hbalanced : ∀ j ∈ s.journals, Balanced s j.pk) : (s.entries.map (·.amount)).sum = 0 := by
  have hcount := DoubleCounting.sum_by_key (fun e : LedgerEntry => e.journal)
    (fun e : LedgerEntry => e.amount) h.journals h.journalOf
  rw [← hcount, List.map_map]
  have hzero : (s.journals.map ((fun k => ((s.entries.filter fun e => e.journal == k).map
      (·.amount)).sum) ∘ (·.pk))) = s.journals.map fun _ => (0 : Money) :=
    List.map_congr_left fun j hj => (hbalanced j hj).2
  rw [hzero, List.sum_map_zero]

/-- By ledger accounts, they come to what all of these have. -/
theorem LedgerTables.totals_sum (h : LedgerTables s) :
    (s.ledgerAccounts.map fun l => entryTotal l.pk s).sum = (s.entries.map (·.amount)).sum := by
  rw [← DoubleCounting.sum_by_key (fun e : LedgerEntry => e.account)
    (fun e : LedgerEntry => e.amount) h.ledgerAccounts h.ledgerOf, List.map_map]
  rfl

/-- The one ledger account of an account. -/
theorem LedgerTables.ledgers (h : LedgerTables s) {a : MockAccount} (ha : a ∈ s.accounts) :
    ∃ l, (s.ledgerAccounts.filter (·.mockAccount.isSome)).filter
      (fun l => l.mockAccount == some a.pk) = [l] ∧ l ∈ s.ledgerAccounts ∧
        l.mockAccount = some a.pk := by
  obtain ⟨l, hl, hof⟩ := h.complete a ha
  generalize hrows : (s.ledgerAccounts.filter (·.mockAccount.isSome)).filter
    (fun l => l.mockAccount == some a.pk) = rows
  have hmem : ∀ x, x ∈ rows ↔ x ∈ s.ledgerAccounts ∧ x.mockAccount = some a.pk := by
    intro x
    rw [← hrows, List.mem_filter, List.mem_filter, beq_iff_eq]
    constructor
    · rintro ⟨⟨hx, -⟩, hxof⟩
      exact ⟨hx, hxof⟩
    · rintro ⟨hx, hxof⟩
      exact ⟨⟨hx, by rw [hxof]; rfl⟩, hxof⟩
  have hnodup : (rows.map (·.pk)).Nodup := by
    rw [← hrows]
    exact h.ledgerAccounts.sublist ((List.filter_sublist.trans List.filter_sublist).map _)
  have hone : rows.length ≤ 1 := by
    refine length_le_one_of_key hnodup (k := l.pk) fun x hx => ?_
    obtain ⟨hx, hxof⟩ := (hmem x).mp hx
    rw [h.oneToOne x hx l hl a.pk hxof hof]
  have hlrows : l ∈ rows := (hmem l).mpr ⟨hl, hof⟩
  obtain ⟨x, hx⟩ := List.length_eq_one_iff.mp
    (Nat.le_antisymm hone (List.length_pos_of_mem hlrows))
  refine ⟨x, hx, ?_⟩
  rw [← hmem, hx]
  exact List.mem_singleton_self x

/-- The balances are what the ledger accounts of users have. -/
theorem LedgerTables.balances_sum (h : LedgerTables s)
    (hreconciled : ∀ a ∈ s.accounts, Reconciled s a) :
    (s.accounts.map (·.balance)).sum =
      ((s.ledgerAccounts.filter (·.mockAccount.isSome)).map fun l => entryTotal l.pk s).sum := by
  have hkeys : (s.accounts.map fun a => some a.pk).Nodup := by
    have hsome := h.accounts.map (Option.some_injective _)
    rw [List.map_map] at hsome
    exact hsome
  rw [← DoubleCounting.sum_by_key (fun l : LedgerAccount => l.mockAccount)
    (fun l => entryTotal l.pk s) hkeys fun l hl => ?_, List.map_map]
  · refine congrArg List.sum (List.map_congr_left fun a ha => ?_)
    obtain ⟨l, hl, hmem, hof⟩ := h.ledgers ha
    show a.balance = (((s.ledgerAccounts.filter (·.mockAccount.isSome)).filter
      fun l => l.mockAccount == some a.pk).map fun l => entryTotal l.pk s).sum
    rw [hl, hreconciled a ha l hmem hof]
    exact (Int.add_zero _).symm
  · obtain ⟨hl, hsome⟩ := List.mem_filter.mp hl
    obtain ⟨n, hn⟩ := Option.isSome_iff_exists.mp hsome
    obtain ⟨a, ha, hpk⟩ := List.mem_map.mp (h.accountOf l hl n hn)
    rw [hn]
    refine List.mem_map.mpr ⟨a, ha, ?_⟩
    rw [hpk]

/-- What was issued is what the ledger accounts of the system have. -/
theorem LedgerTables.issued_sum (h : LedgerTables s) :
    ((issuedEntries s).map (·.amount)).sum =
      ((s.ledgerAccounts.filter fun l => !l.mockAccount.isSome).map
        fun l => entryTotal l.pk s).sum := by
  have hsystem : ∀ l ∈ s.ledgerAccounts, (l.kind == .systemIssuance) = !l.mockAccount.isSome := by
    intro l hl
    have hkind := h.kinds l hl
    cases hm : l.mockAccount with
    | none =>
        rw [hkind.mpr hm]
        rfl
    | some n =>
        refine beq_eq_false_iff_ne.mpr fun hk => ?_
        rw [hkind.mp hk] at hm
        exact nomatch hm
  have hkeys : ((s.ledgerAccounts.filter fun l => !l.mockAccount.isSome).map (·.pk)).Nodup :=
    h.ledgerAccounts.sublist (List.filter_sublist.map _)
  rw [← DoubleCounting.sum_by_key (fun e : LedgerEntry => e.account)
    (fun e : LedgerEntry => e.amount) hkeys fun e he => ?_, List.map_map]
  · refine congrArg List.sum (List.map_congr_left fun l hl => ?_)
    obtain ⟨hl, hnone⟩ := List.mem_filter.mp hl
    show (((issuedEntries s).filter fun e => e.account == l.pk).map _).sum = entryTotal l.pk s
    rw [issuedEntries, List.filter_filter, entryTotal]
    refine congrArg (fun es => (List.map LedgerEntry.amount es).sum) ?_
    refine List.filter_congr fun e _ => ?_
    cases he : e.account == l.pk with
    | false => rfl
    | true =>
        rw [Bool.true_and]
        refine List.any_eq_true.mpr ⟨l, hl, ?_⟩
        rw [hsystem l hl, hnone, Bool.true_and]
        exact beq_iff_eq.mpr (beq_iff_eq.mp he).symm
  · obtain ⟨-, hany⟩ := List.mem_filter.mp he
    obtain ⟨l, hl, hq⟩ := List.any_eq_true.mp hany
    obtain ⟨hkind, hpk⟩ := Bool.and_eq_true_iff.mp hq
    refine List.mem_map.mpr ⟨l, List.mem_filter.mpr ⟨hl, ?_⟩, beq_iff_eq.mp hpk⟩
    rw [← hsystem l hl]
    exact hkind

/-- **CONSERVATION**, of what the check finds nothing in. -/
theorem LedgerTables.conserved (h : LedgerTables s)
    (hbalanced : ∀ j ∈ s.journals, Balanced s j.pk)
    (hreconciled : ∀ a ∈ s.accounts, Reconciled s a) :
    (s.accounts.map (·.balance)).sum = -((issuedEntries s).map (·.amount)).sum := by
  have hzero := h.totals_sum.trans (h.entries_sum hbalanced)
  have hsplit := List.sum_map_filter_add_sum_map_filter_not (fun l => l.mockAccount.isSome = true)
    (fun l => entryTotal l.pk s) s.ledgerAccounts
  simp only [Bool.decide_eq_true, Bool.not_eq_true, Bool.decide_eq_false] at hsplit
  rw [← h.balances_sum hreconciled, ← h.issued_sum, hzero] at hsplit
  exact eq_neg_of_add_eq_zero_left hsplit

/-! ## One row changed -/

/-- The constraints look at keys and references only. -/
theorem LedgerTables.congr {s' : Store} (h : LedgerTables s)
    (haccounts : s'.accounts.map (·.pk) = s.accounts.map (·.pk))
    (hledgers : s'.ledgerAccounts = s.ledgerAccounts) (hjournals : s'.journals = s.journals)
    (hentries : s'.entries.map (fun e => (e.journal, e.account)) =
      s.entries.map fun e => (e.journal, e.account)) : LedgerTables s' := by
  have entry : ∀ e ∈ s'.entries, ∃ x ∈ s.entries, x.journal = e.journal ∧
      x.account = e.account := by
    intro e he
    have hmem := List.mem_map_of_mem (f := fun e : LedgerEntry => (e.journal, e.account)) he
    rw [hentries] at hmem
    obtain ⟨x, hx, hsame⟩ := List.mem_map.mp hmem
    exact ⟨x, hx, Prod.mk.inj hsame⟩
  refine ⟨?_, ?_, ?_, ?_, ?_, ?_, fun e he => ?_, fun e he => ?_, fun a ha => ?_⟩
  · rw [haccounts]
    exact h.accounts
  · rw [hledgers]
    exact h.ledgerAccounts
  · rw [hjournals]
    exact h.journals
  · rw [hledgers]
    exact h.oneToOne
  · rw [hledgers]
    exact h.kinds
  · rw [hledgers, haccounts]
    exact h.accountOf
  · obtain ⟨x, hx, hj, -⟩ := entry e he
    rw [hjournals, ← hj]
    exact h.journalOf x hx
  · obtain ⟨x, hx, -, hl⟩ := entry e he
    rw [hledgers, ← hl]
    exact h.ledgerOf x hx
  · have hmem := List.mem_map_of_mem (f := MockAccount.pk) ha
    rw [haccounts] at hmem
    obtain ⟨x, hx, hpk⟩ := List.mem_map.mp hmem
    rw [hledgers, ← hpk]
    exact h.complete x hx

/-- What is found, when something is not in order. -/
theorem LedgerTables.finds (h : LedgerTables s)
    (hbad : ¬ ((∀ j ∈ s.journals, Balanced s j.pk) ∧ ∀ a ∈ s.accounts, Reconciled s a)) :
    ∃ m ms, (call (atomic ledgerMismatches) ids now s).1 = .ok (m :: ms) := by
  obtain ⟨ms, hms, hiff⟩ := h.mismatches
  rw [call_ledgerMismatches, hms]
  cases ms with
  | nil => exact absurd (hiff.mp rfl) hbad
  | cons m ms => exact ⟨m, ms, rfl⟩

/-- Another balance of one account. -/
def withBalance (pre : List MockAccount) (a : MockAccount) (post : List MockAccount)
    (b : Money) (s : Store) : Store :=
  { s with accounts := pre ++ { a with balance := b } :: post }

/-- Another amount of one entry. -/
def withAmount (pre : List LedgerEntry) (e : LedgerEntry) (post : List LedgerEntry)
    (x : Money) (s : Store) : Store :=
  { s with entries := pre ++ { e with amount := x } :: post }

theorem LedgerTables.balance_changed (h : LedgerTables s)
    (hreconciled : ∀ a ∈ s.accounts, Reconciled s a) {pre post : List MockAccount}
    {a : MockAccount} {b : Money} (hrows : s.accounts = pre ++ a :: post)
    (hne : b ≠ a.balance) :
    ∃ m ms, (call (atomic ledgerMismatches) ids now (withBalance pre a post b s)).1 =
      .ok (m :: ms) := by
  have htables : LedgerTables (withBalance pre a post b s) := by
    refine h.congr ?_ rfl rfl rfl
    rw [hrows, withBalance, List.map_append, List.map_append, List.map_cons, List.map_cons]
  refine htables.finds fun hgood => hne ?_
  have ha : a ∈ s.accounts := by
    rw [hrows]
    exact List.mem_append_right _ List.mem_cons_self
  obtain ⟨l, hl, hof⟩ := h.complete a ha
  have hold := hreconciled a ha l hl hof
  have hnew := hgood.2 { a with balance := b } (List.mem_append_right _ List.mem_cons_self)
    l hl hof
  exact hnew.trans hold.symm

theorem LedgerTables.amount_changed (h : LedgerTables s)
    (hbalanced : ∀ j ∈ s.journals, Balanced s j.pk) {pre post : List LedgerEntry}
    {e : LedgerEntry} {x : Money} (hrows : s.entries = pre ++ e :: post) (hne : x ≠ e.amount) :
    ∃ m ms, (call (atomic ledgerMismatches) ids now (withAmount pre e post x s)).1 =
      .ok (m :: ms) := by
  have htables : LedgerTables (withAmount pre e post x s) := by
    refine h.congr rfl rfl rfl ?_
    rw [hrows, withAmount, List.map_append, List.map_append, List.map_cons, List.map_cons]
  refine htables.finds fun hgood => hne ?_
  have he : e ∈ s.entries := by
    rw [hrows]
    exact List.mem_append_right _ List.mem_cons_self
  obtain ⟨j, hj, hpk⟩ := List.mem_map.mp (h.journalOf e he)
  -- both amounts make the sum of the journal zero
  have hsum : ∀ y : Money, (((pre ++ { e with amount := y } :: post).filter
      (·.journal == j.pk)).map (·.amount)).sum =
        ((pre.filter (·.journal == j.pk)).map (·.amount)).sum + (y +
          ((post.filter (·.journal == j.pk)).map (·.amount)).sum) := by
    intro y
    rw [List.filter_append, List.filter_cons, if_pos (beq_iff_eq.mpr hpk.symm), List.map_append,
      List.sum_append, List.map_cons, List.sum_cons]
  have hold := (hbalanced j hj).2
  have hnew : (((pre ++ { e with amount := x } :: post).filter
      (·.journal == j.pk)).map (·.amount)).sum = 0 := (hgood.1 j hj).2
  rw [hrows] at hold
  have hsame := (hsum x).symm.trans (hnew.trans (hold.symm.trans (hsum e.amount)))
  exact add_right_cancel (add_left_cancel hsame)

/-! ## The check -/

/-- **ADEQUATE**: of a store that the tables allow, and that the check finds nothing in,
    every balance is what the ledger says, all balances come to what was issued, and the
    check finds any one balance or amount that is changed. -/
theorem reconciliation_adequate (h : LedgerTables s) (ids : Nat → Nat) (now : Time)
    (hclean : (call (atomic ledgerMismatches) ids now s).1 = .ok []) :
    (∀ a ∈ s.accounts, ∀ l ∈ s.ledgerAccounts, l.mockAccount = some a.pk →
      a.balance = entryTotal l.pk s) ∧
    (s.accounts.map (·.balance)).sum = -((issuedEntries s).map (·.amount)).sum ∧
    (∀ pre a post b, s.accounts = pre ++ a :: post → b ≠ a.balance → ∃ m ms,
      (call (atomic ledgerMismatches) ids now (withBalance pre a post b s)).1 =
        .ok (m :: ms)) ∧
    ∀ pre e post x, s.entries = pre ++ e :: post → x ≠ e.amount → ∃ m ms,
      (call (atomic ledgerMismatches) ids now (withAmount pre e post x s)).1 =
        .ok (m :: ms) := by
  obtain ⟨ms, hms, hiff⟩ := h.mismatches
  rw [call_ledgerMismatches, hms] at hclean
  obtain ⟨hbalanced, hreconciled⟩ := hiff.mp (Except.ok.inj hclean)
  exact ⟨hreconciled, h.conserved hbalanced hreconciled,
    fun _ _ _ _ hrows hne => h.balance_changed hreconciled hrows hne,
    fun _ _ _ _ hrows hne => h.amount_changed hbalanced hrows hne⟩

/-- An account with its seed. -/
def seededAccount : Store where
  accounts := [{ pk := 1, user := 1, balance := SEED_AMOUNT }]
  ledgerAccounts := [{ pk := 2, kind := .systemIssuance, code := "SEED_RESERVE" },
    { pk := 3, kind := .user, mockAccount := some 1, code := "USER:1" }]
  journals := [{ pk := 9, kind := .seedIssue, targetMockAccount := some 1 }]
  entries := [⟨9, 3, SEED_AMOUNT⟩, ⟨9, 2, -SEED_AMOUNT⟩]

theorem seededAccount_tables : LedgerTables seededAccount where
  accounts := by decide
  ledgerAccounts := by decide
  journals := by decide
  oneToOne := by
    intro l hl l' hl' n hn hn'
    simp only [seededAccount, List.mem_cons, List.not_mem_nil, or_false] at hl hl'
    rcases hl with rfl | rfl
    · exact nomatch hn
    · rcases hl' with rfl | rfl
      · exact nomatch hn'
      · rfl
  kinds := by decide
  accountOf := by
    intro l hl n hn
    simp only [seededAccount, List.mem_cons, List.not_mem_nil, or_false] at hl
    rcases hl with rfl | rfl
    · exact nomatch hn
    · cases hn
      exact List.mem_cons_self
  journalOf := by decide
  ledgerOf := by decide
  complete := by decide

theorem seededAccount_adequate :
    (seededAccount.accounts.map (·.balance)).sum =
      -((issuedEntries seededAccount).map (·.amount)).sum ∧
    ∃ m ms, (call (atomic ledgerMismatches) id 0
      (withBalance [] { pk := 1, user := 1, balance := SEED_AMOUNT } [] 0 seededAccount)).1 =
        .ok (m :: ms) := by
  obtain ⟨-, hsum, hbalance, -⟩ := reconciliation_adequate seededAccount_tables id 0
    (by decide +kernel)
  exact ⟨hsum, hbalance [] _ [] 0 rfl (by decide)⟩

end Market
