import Marketplace.LedgerInvariant
import Marketplace.ReconcileProofs
import Marketplace.SafeManagement
import Marketplace.TxnSchedule

/-! # The ledger is conserved in every run

    What each of the five operations on the ledger commits (`MoneyStep`), and that
    any number of them, in any order and interleaving, keep the ledger consistent
    from the empty ledger on. -/

namespace Market

open TxnProgram TxnInterleaving TxnLogic TxnProtection TxnSoundness TxnBody TxnFrames
  TxnSchedule

variable {p : Platform} {s : Store}

/-! ## Nothing to report -/

/-- A consistent ledger has no mismatches. -/
theorem LedgerInv.mismatches (hi : LedgerInv s) : mismatchesOf s = .ok [] := by
  have hjournals : unbalancedJournals s = [] := by
    refine List.filter_eq_nil_iff.mpr fun j hj hbad => ?_
    obtain ⟨hlen, hsum⟩ := hi.balanced j hj
    rw [entriesOf] at hlen hsum
    simp only [hlen, hsum, bne_self_eq_false, Bool.or_self, Bool.false_eq_true] at hbad
  have haccounts : ∀ rows : List MockAccount, rows ⊆ s.accounts →
      accountMismatchesOf s (rows.map fun a =>
        (a, s.ledgerAccounts.find? (·.mockAccount == some a.pk))) = .ok [] := by
    intro rows hrows
    induction rows with
    | nil => rfl
    | cons a rows ih =>
        have ha : a ∈ s.accounts := hrows List.mem_cons_self
        obtain ⟨l, -, hl⟩ := hi.ledger a ha
        have hfind : s.ledgerAccounts.find? (·.mockAccount == some a.pk) = some l := by
          rw [← List.head?_filter, hl]
          rfl
        have hmem : l ∈ s.ledgerAccounts := List.mem_of_find?_eq_some hfind
        have hof := List.find?_some hfind
        rw [beq_iff_eq] at hof
        rw [List.map_cons, hfind, accountMismatchesOf,
          ih fun x hx => hrows (List.mem_cons_of_mem _ hx)]
        have heq : ¬ (entryTotal l.pk s != a.balance) = true := by
          rw [hi.balance a ha l hmem hof, bne_self_eq_false]
          exact Bool.false_ne_true
        show Except.ok (if entryTotal l.pk s != a.balance then _ else []) = _
        rw [if_neg heq]
  rw [mismatchesOf, haccounts _ fun _ h => h, hjournals]
  rfl

/-! ## What the operations commit -/

/-- What a commit does to the ledger. -/
inductive MoneyStep (p : Platform) (held : List Lock) (s s' : Store) : Prop where
  | quiet : LedgerQuiet s s' → MoneyStep p held s s'
  | moved (c : Call) (m : Movement) : MoveReady p c held s m → 0 < c.amount →
      LedgerQuiet (m.apply s) s' → MoneyStep p held s s'
  | opened (user : Nat) (o : Opening) : OpeningReady user held s o → s' = o.apply s →
      MoneyStep p held s s'

/-- **STEP**: every commit keeps the ledger consistent. -/
theorem LedgerInv.step {held : List Lock} {s' : Store} (hi : LedgerInv s)
    (h : MoneyStep p held s s') : LedgerInv s' := by
  cases h with
  | quiet hq => exact hi.quiet hq
  | moved c m hm hamount hq => exact (hi.moved hm hamount).quiet hq
  | opened user o ho he =>
      rw [he]
      exact hi.opened ho

/-- The role of a session that works on the ledger. -/
def ledgerRole (p : Platform) : Role Store Lock where
  write := fun _ _ => True
  step := MoneyStep p

theorem ledgerRole_lawful (p : Platform) : (ledgerRole p).Lawful :=
  ⟨fun _ => trivial, fun _ _ _ _ _ => trivial⟩

/-- The context of a session that works on the ledger. -/
def ledgerCtx (p : Platform) : Ctx Store Lock Exn Obs :=
  market p (ledgerRole p) (fun _ _ _ => True) (fun _ _ _ => True)

theorem ledgerCtx_abides (p : Platform) : Abides p (ledgerCtx p) :=
  market_abides (ledgerRole_lawful p) fun _ _ => trivial

/-! ## Quiet writes -/

theorem ledgerQuiet_setClosed (n : Nat) (now : Time) (s : Store) :
    LedgerQuiet s (setClosed n now s) := by
  refine ⟨?_, rfl, rfl, rfl⟩
  show (s.accounts.map _).map MockAccount.holding = _
  rw [List.map_map]
  refine List.map_congr_left fun a _ => ?_
  rw [Function.comp_apply]
  split <;> rfl

theorem ledgerQuiet_composes : Composes LedgerQuiet :=
  ⟨LedgerQuiet.refl, fun _ _ _ => LedgerQuiet.trans⟩

/-- The other services leave the ledger alone. -/
theorem ledgerQuiet_licensed {k : WriteKind} {held : List Lock} {f : Store → Store}
    (h : Licensed held k f) (s : Store) : LedgerQuiet s (f s) := by
  cases h with
  | closing n now _ => exact ledgerQuiet_setClosed n now s
  | _ => exact ⟨rfl, rfl, rfl, rfl⟩

theorem ledgerQuiet_notifications (notes : List Notification) (s : Store) :
    LedgerQuiet s (addNotifications notes s) := ⟨rfl, rfl, rfl, rfl⟩

/-! ## The operations -/

/-- A whole number of won that the HTTP views admit. -/
structure Amount where
  won : Nat
  pos : 1 ≤ won
  below : won ≤ 99999999

/-- The amount as the ledger counts it. -/
def Amount.money (a : Amount) : Money := 100 * a.won

theorem Amount.money_pos (a : Amount) : 0 < a.money := by
  have h := a.pos
  show (0 : Int) < 100 * a.won
  omega

/-- The operations on accounts and the ledger. -/
inductive MoneyOp where
  | ensureAccount (user : Nat)
  | transfer (user : Nat) (recipientName : String) (amount : Amount) (key : Uuid)
  | transferForProductRoom (user room : Nat) (amount : Amount) (key : Uuid)
  | closeAccount (user : Nat)
  | withdrawAccount (user : Nat) (password : String)

/-- The transaction of an operation. -/
def MoneyOp.run (p : Platform) : MoneyOp → M Unit
  | .ensureAccount user => do
      let _ ← Market.ensureAccount user
      return ()
  | .transfer user recipientName amount key => do
      let _ ← Market.transfer p user recipientName amount.money key none
      return ()
  | .transferForProductRoom user room amount key => do
      let _ ← Market.transferForProductRoom p user room amount.money key
      return ()
  | .closeAccount user => do
      let _ ← Market.closeAccount user
      return ()
  | .withdrawAccount user password => do
      let _ ← Market.withdrawAccount user password
      return ()

/-- What a transfer of a positive amount commits. -/
theorem TransferStep.money {c : Call} {r : TransferResult} {held : List Lock} {s s' : Store}
    (h : TransferStep p c r held s s') (hamount : 0 < c.amount) : MoneyStep p held s s' := by
  obtain ⟨g, ⟨f, notes, hexec, -, rfl⟩, rfl⟩ := h
  cases hexec with
  | replayed _ => exact .quiet (ledgerQuiet_notifications notes s)
  | denied q _ _ _ => exact .quiet ⟨rfl, rfl, rfl, rfl⟩
  | moved m hm _ => exact .moved c m hm hamount (ledgerQuiet_notifications notes _)

theorem CloseEnd.quiet {user : Nat} {held : List Lock} {s : Store} {r : Bool}
    {f : Store → Store} (h : CloseEnd user held s r f) (s' : Store) :
    LedgerQuiet s' (f s') := by
  have hnew : ∀ new : Bool, LedgerQuiet s' (whenNew new (addSafety {}) s') := fun new => by
    cases new <;> exact ⟨rfl, rfl, rfl, rfl⟩
  cases h with
  | already new => exact hnew new
  | closed new a now _ =>
      exact ((hnew new).trans (ledgerQuiet_setClosed a.pk now _)).trans ⟨rfl, rfl, rfl, rfl⟩

theorem top_withdrawAccount_ledger (user : Nat) (password : String) :
    Top (ledgerCtx p) (withdrawAccount user password) := by
  have hA := ledgerCtx_abides p
  have hrun : MayRun (ledgerCtx p) withdrawalWrites :=
    mayRun_of_frame hA.lawful (fun _ _ _ _ _ => trivial)
      (fun k _ held f hf s => hA.leave _ _ _ (respects_licensed hf s)) ledgerQuiet_composes
      (fun _ _ _ _ hf s => ledgerQuiet_licensed hf s)
      fun held s s' hleave hq => ⟨hleave.1, hleave.2, .quiet hq⟩
  exact top_withdrawAccount (hrun _ fun Γ' hΓ' hp _ =>
    safe_withdrawAccountBody hΓ' hp user password)

/-- Every operation commits money steps only. -/
theorem top_moneyOp (op : MoneyOp) : Top (ledgerCtx p) (op.run p) := by
  have hA := ledgerCtx_abides p
  have hcommit : ∀ c : Call, 0 < c.amount → Commits p c (ledgerCtx p) :=
    fun c hc r held s s' hleave h => ⟨hleave.1, hleave.2, h.money hc⟩
  have hpost : ∀ {c : Call} {before} (r : Except Exn TransferResult) w,
      CallPost p c before r w → Idle w := fun _ _ h => h.1
  cases op with
  | ensureAccount user =>
      refine Top.bind (top_ensureAccount hA fun a held s f hleave h => ?_) fun _ => Top.ret ()
      refine ⟨hleave.1, hleave.2, ?_⟩
      cases h with
      | found _ _ _ => exact .quiet (LedgerQuiet.refl s)
      | opened o ho _ => exact .opened user o ho rfl
  | transfer user name amount key =>
      refine Top.bind (fun w hi => ?_) fun _ => Top.ret ()
      exact wp_mono hpost (wp_transfer hA (hcommit ⟨user, amount.money, key,
        canonicalPayload name amount.money⟩ amount.money_pos) rfl hi)
  | transferForProductRoom user room amount key =>
      refine Top.bind (fun w hi => ?_) fun _ => Top.ret ()
      exact wp_mono hpost (wp_transferForProductRoom hA (hcommit ⟨user, amount.money, key,
        canonicalRoomPayload room amount.money⟩ amount.money_pos) rfl hi)
  | closeAccount user =>
      exact Top.bind (top_closeAccount hA fun r held s f hleave h =>
        ⟨hleave.1, hleave.2, .quiet (h.quiet s)⟩) fun _ => Top.ret ()
  | withdrawAccount user password =>
      exact Top.bind (top_withdrawAccount_ledger user password) fun _ => Top.ret ()

/-! ## Every run -/

/-- The tables of the ledger are empty. -/
structure LedgerEmpty (s : Store) : Prop where
  accounts : s.accounts = []
  ledgerAccounts : s.ledgerAccounts = []
  journals : s.journals = []
  entries : s.entries = []

theorem LedgerEmpty.inv (h : LedgerEmpty s) : LedgerInv s where
  accountKeys := by rw [h.accounts]; exact List.nodup_nil
  ledgerKeys := by rw [h.ledgerAccounts]; exact List.nodup_nil
  journalKeys := by rw [h.journals]; exact List.nodup_nil
  ledgerOf l hl := by rw [h.ledgerAccounts] at hl; exact nomatch hl
  entryOf e he := by rw [h.entries] at he; exact nomatch he
  seedOf j hj := by rw [h.journals] at hj; exact nomatch hj
  balanced j hj := by rw [h.journals] at hj; exact nomatch hj
  ledger a ha := by rw [h.accounts] at ha; exact nomatch ha
  balance a ha := by rw [h.accounts] at ha; exact nomatch ha
  range a ha := by rw [h.accounts] at ha; exact nomatch ha
  seed a ha := by rw [h.accounts] at ha; exact nomatch ha
  reserveOnly l hl := by rw [h.ledgerAccounts] at hl; exact nomatch hl
  total := by rw [h.accounts]; rfl
  reserve := by rw [reserveTotal, h.ledgerAccounts, h.accounts]; rfl

/-- What conservation says of a store. -/
structure Conserved (s : Store) : Prop where
  journals : ∀ j ∈ s.journals, (s.entries.filter (·.journal == j.pk)).length = 2 ∧
    ((s.entries.filter (·.journal == j.pk)).map (·.amount)).sum = 0
  accounts : ∀ a ∈ s.accounts, ∃ l,
    s.ledgerAccounts.filter (fun l => l.kind == .user && l.mockAccount == some a.pk) = [l] ∧
    a.balance = entryTotal l.pk s
  range : ∀ a ∈ s.accounts, 0 ≤ a.balance ∧ a.balance ≤ 100 * 1000000000
  seeds : ∀ a ∈ s.accounts, (s.journals.filter fun j =>
    j.kind == .seedIssue && j.targetMockAccount == some a.pk).length = 1
  total : (s.accounts.map (·.balance)).sum = 100 * 100000 * s.accounts.length
  reserve : (s.accounts.map (·.balance)).sum =
    -((s.ledgerAccounts.filter (·.code == "SEED_RESERVE")).map fun l =>
      entryTotal l.pk s).sum
  mismatches : mismatchesOf s = .ok []

theorem LedgerInv.conserved (hi : LedgerInv s) : Conserved s where
  journals := hi.balanced
  accounts a ha := by
    obtain ⟨l, hkind, hl⟩ := hi.ledger a ha
    have hmem : l ∈ s.ledgerAccounts.filter (·.mockAccount == some a.pk) := by
      rw [hl]
      exact List.mem_singleton_self l
    rw [List.mem_filter, beq_iff_eq] at hmem
    refine ⟨l, ?_, hi.balance a ha l hmem.1 hmem.2⟩
    rw [← List.filter_filter, hl, List.filter_cons, hkind]
    rfl
  range := hi.range
  seeds := hi.seed
  total := hi.total
  reserve := by
    have h : reserveTotal s = -(SEED_AMOUNT * s.accounts.length) := hi.reserve
    rw [reserveTotal] at h
    rw [h, hi.total, Int.neg_neg]
  mismatches := hi.mismatches

/-- **CONSERVATION**: from the empty ledger on, in every interleaving of any number of
    operations, the ledger is conserved in every store reached. -/
theorem ledger_conserved {ι : Type} [DecidableEq ι] (p : Platform) (ops : ι → MoneyOp)
    {s : Store} {now : Time} (h0 : LedgerEmpty s) {c : Config ι Store Lock Exn Obs Unit}
    (hr : Reached s now (fun i => (ops i).run p) c) : Conserved c.db := by
  have hfit := market_fits (ι := ι) p (fun _ => ledgerRole p)
    (fun _ => ledgerRole_lawful p) (fun _ _ _ => True) (fun _ _ _ => True)
  refine (top_invariant hfit (fun i => top_moneyOp (ops i)) (fun _ _ _ h => False.elim h)
    (fun _ held s s' hi hg => hi.step hg.2.2) hr ?_ h0.inv).conserved
  exact fun _ _ _ _ _ => trivial

/-- Two users, and nothing in the ledger. -/
def twoUsers : Store where
  users := [{ pk := 1, username := "sender" }, { pk := 2, username := "recipient" }]

/-- The accounts of both, and a transfer from one to the other. -/
def openAndTransfer : Fin 3 → MoneyOp
  | 0 => .ensureAccount 1
  | 1 => .ensureAccount 2
  | 2 => .transfer 1 "recipient" ⟨2500, by decide, by decide⟩ 9

/-- A run of three operations, the second begun before the first is over. -/
theorem ledger_conserved_openAndTransfer : ∃ c : Config (Fin 3) Store Lock Exn Obs Unit,
    Reached twoUsers 0 (fun i => (openAndTransfer i).run plainPlatform) c ∧
      c.db.accounts.map (·.balance) = [9750000, 10250000] ∧ Conserved c.db := by
  have hplay : (play validateBalancedJournal [.run 1 2 id, .run 0 100 (fun k => 10 + k),
      .run 1 100 (fun k => 20 + k), .run 2 100 (fun k => 30 + k)]
      (Config.start twoUsers 0 fun i => (openAndTransfer i).run plainPlatform)).map
        (fun d => d.db.accounts.map (·.balance)) = some [9750000, 10250000] := by
    decide +kernel
  obtain ⟨c, hr, hb⟩ :=
    reaches_of_play (D := postgres fun _ _ => False) (f := fun d => _) hplay
  exact ⟨c, hr, hb, ledger_conserved plainPlatform openAndTransfer ⟨rfl, rfl, rfl, rfl⟩ hr⟩

end Market
