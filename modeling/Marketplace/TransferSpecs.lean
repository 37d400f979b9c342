import Mathlib.Data.List.Basic
import Marketplace.LedgerWrites

/-! # What a transfer commits

    The specification of `_execute_once`, `transfer` and `transfer_for_product_room`
    in any interleaving: a call replays, stores a denial, or moves money, and what
    it commits is one explicit change of the store, with the facts that the locks
    still held guarantee of the store it is applied to. -/

namespace Market

open TxnProgram TxnInterleaving TxnLogic TxnProtection TxnBody

variable {p : Platform} {Γ : Ctx Store Lock Exn Obs} {w w' : World Store Lock Obs}

/-- The key of an insert is held and nobody has it in the committed store. -/
structure Settled (i : Index) (w : World Store Lock Obs) : Prop where
  held : .unique i ∈ w.sess.held
  free : i.present w.db = false

/-- What is settled stays settled. -/
theorem Settled.near {i : Index} (hA : Abides p Γ) (hs : Settled i w)
    (h : Near Γ w w') : Settled i w' :=
  ⟨h.held hs.held, hA.same h hs.held hs.free⟩

/-- An insert settles its keys. -/
theorem Inserted.settled {keys : List Index} {f : Store → Store} {i : Index}
    (hA : Abides p Γ) (h : Inserted Γ w keys f w') (hi : i ∈ keys)
    (hview : ∀ s, i.present (w.sess.pend s) = false → i.present s = false) :
    Settled i w' := by
  obtain ⟨w1, hs, hw, hlocks, hfree⟩ := h.free
  have h1 : Settled i w1 := ⟨hlocks i hi, hview _ (by rw [← hs.view]; exact hfree i hi)⟩
  exact h1.near hA hw.toNear

/-! ## The changes -/

/-- A completed transfer, with the rows it was decided on. -/
structure Movement where
  sender : MockAccount
  recipient : MockAccount
  debit : LedgerAccount
  credit : LedgerAccount
  amount : Money
  journal : Uuid
  transfer : Uuid
  request : TransferRequest
  actor : Nat

/-- The store after the movement. -/
def Movement.apply (m : Movement) (s : Store) : Store :=
  addTransferAudit
    { actor := m.actor, eventType := "TRANSFER_COMPLETED", transfer := some m.transfer } <|
  addRequest m.request <|
  addTransfer { pk := m.transfer, sender := m.sender.pk, recipient := m.recipient.pk,
                journal := m.journal, amount := m.amount } <|
  addEntries [{ journal := m.journal, account := m.debit.pk, amount := -m.amount },
              { journal := m.journal, account := m.credit.pk, amount := m.amount }] <|
  addJournal { pk := m.journal, kind := .transfer } <|
  setBalance m.recipient.pk (m.recipient.balance + m.amount) <|
  setBalance m.sender.pk (m.sender.balance - m.amount) s

/-- One call of the two endpoints: who calls, with which key, and the payload that
    stands for its arguments. -/
structure Call where
  user : Nat
  amount : Money
  key : Uuid
  payload : String

/-- The user sends from the account `n`. -/
def SendsFrom (user n : Nat) (s : Store) : Prop :=
  ((s.accounts.map MockAccount.identity).find? (·.2 == user)).map Prod.fst = some n

/-- The account is one of the sender's. -/
theorem SendsFrom.mem {user n : Nat} {s : Store} (h : SendsFrom user n s) :
    (n, user) ∈ s.accounts.map MockAccount.identity := by
  obtain ⟨⟨m, u⟩, hfind, rfl⟩ := Option.map_eq_some_iff.mp h
  have hu := List.find?_some hfind
  rw [beq_iff_eq] at hu
  rw [← hu]
  exact List.mem_of_find?_eq_some hfind

/-- Accounts are only added at the end, so it stays the same account. -/
theorem SendsFrom.keeps {user n : Nat} {s s' : Store} (h : SendsFrom user n s)
    (hk : Keeps s s') : SendsFrom user n s' := by
  obtain ⟨a, hfind, rfl⟩ := Option.map_eq_some_iff.mp h
  obtain ⟨rest, hrest⟩ := hk.accounts
  rw [SendsFrom, ← hrest, List.find?_append, hfind]
  rfl

/-- A user sends from one account. -/
theorem SendsFrom.unique {user n n' : Nat} {s : Store} (h : SendsFrom user n s)
    (h' : SendsFrom user n' s) : n = n' := Option.some.inj (h.symm.trans h')

/-- The account that is found is the sender's. -/
theorem sendsFrom_of_find {user : Nat} {s : Store} {a : MockAccount}
    (h : s.accounts.find? (·.user == user) = some a) : SendsFrom user a.pk s := by
  have hmap : (s.accounts.map MockAccount.identity).find? (·.2 == user) =
      (s.accounts.find? (·.user == user)).map MockAccount.identity := List.find?_map ..
  rw [SendsFrom, hmap, h]
  rfl

/-- The facts a request row is stored under. -/
structure RequestReady (p : Platform) (c : Call) (held : List Lock) (s : Store)
    (r : TransferRequest) : Prop where
  key : r.idempotencyKey = c.key
  payload : r.canonicalPayload = c.payload
  owner : SendsFrom c.user r.sender s
  lock : .advisory (p.idempotencyDigest r.sender c.key) false ∈ held
  claimed : .unique (.requestKey r.sender c.key) ∈ held
  free : (Index.requestKey r.sender c.key).present s = false

/-- A denial is a response without a transfer. -/
structure Denial (r : TransferRequest) : Prop where
  status : r.responseStatus = 422
  body : r.responseBody = .error "TRANSFER_NOT_ALLOWED"
  transfer : r.transfer = none

/-- What `_execute_once` knows when it moves the money. -/
structure MoveAllowed (p : Platform) (c : Call) (held : List Lock) (s : Store)
    (sender recipient : MockAccount) : Prop where
  lock : .advisory (p.idempotencyDigest sender.pk c.key) false ∈ held
  owner : SendsFrom c.user sender.pk s
  safetyLock : .advisory SAFETY_LOCK_KEY true ∈ held
  safety : ∃ t, s.safety = some t ∧ t.state = .opened
  senderRow : sender ∈ s.accounts
  senderLock : .row .mockAccount sender.pk ∈ held
  recipientRow : recipient ∈ s.accounts
  recipientLock : .row .mockAccount recipient.pk ∈ held
  other : ∃ u, u ≠ c.user ∧ (recipient.pk, u) ∈ s.accounts.map MockAccount.identity
  senderOpen : sender.isOpen = true
  recipientOpen : recipient.isOpen = true
  enough : c.amount ≤ sender.balance
  below : recipient.balance + c.amount ≤ MAX_BALANCE

/-- The facts of a movement at its commit. -/
structure MoveReady (p : Platform) (c : Call) (held : List Lock) (s : Store)
    (m : Movement) : Prop extends MoveAllowed p c held s m.sender m.recipient where
  request : RequestReady p c held s m.request
  amount : m.amount = c.amount
  requestSender : m.request.sender = m.sender.pk
  status : m.request.responseStatus = 201
  transfer : m.request.transfer = some m.transfer
  body : ∃ name, m.request.responseBody =
    completedBody m.transfer name m.amount (m.sender.balance - m.amount)
  debit : m.debit ∈ s.ledgerAccounts
  debitOf : m.debit.mockAccount = some m.sender.pk
  credit : m.credit ∈ s.ledgerAccounts
  creditOf : m.credit.mockAccount = some m.recipient.pk
  journalHeld : .unique (.pk .journal m.journal) ∈ held
  journalFree : (Index.pk .journal m.journal).present s = false
  transferHeld : .unique (.pk .transfer m.transfer) ∈ held
  transferFree : (Index.pk .transfer m.transfer).present s = false

/-- How a call ends inside its transaction: the result, and the writes it made. -/
inductive ExecEnd (p : Platform) (c : Call) (r : TransferResult) (held : List Lock)
    (s : Store) : (Store → Store) → Prop where
  | replayed : r.replayed = true → ExecEnd p c r held s id
  | denied (q : TransferRequest) : RequestReady p c held s q → Denial q →
      r = { status := q.responseStatus, body := q.responseBody } →
      ExecEnd p c r held s (addRequest q)
  | moved (m : Movement) : MoveReady p c held s m →
      r = { status := m.request.responseStatus, body := m.request.responseBody } →
      ExecEnd p c r held s m.apply

/-! ## Interference does not undo the facts -/

/-- A request that is ready stays ready under its lock. -/
theorem RequestReady.near {c : Call} {r : TransferRequest} (hA : Abides p Γ)
    (h : RequestReady p c w.sess.held w.db r) (hn : Near Γ w w') :
    RequestReady p c w'.sess.held w'.db r where
  key := h.key
  payload := h.payload
  owner := h.owner.keeps (hA.keeps hn)
  lock := hn.held h.lock
  claimed := hn.held h.claimed
  free := hA.same hn h.claimed h.free

/-- A movement that is allowed stays allowed under the locks of its accounts. -/
theorem MoveAllowed.near {c : Call} {sender recipient : MockAccount}
    (hA : Abides p Γ) (h : MoveAllowed p c w.sess.held w.db sender recipient)
    (hn : Near Γ w w') : MoveAllowed p c w'.sess.held w'.db sender recipient where
  lock := hn.held h.lock
  owner := h.owner.keeps (hA.keeps hn)
  safetyLock := hn.held h.safetyLock
  safety := by
    obtain ⟨t, ht, ho⟩ := h.safety
    have hs := (hA.same hn h.safetyLock).1 rfl (by rw [ht]; rfl)
    exact ⟨t, hs.trans ht, ho⟩
  senderRow := hA.same hn h.senderLock _ h.senderRow rfl
  senderLock := hn.held h.senderLock
  recipientRow := hA.same hn h.recipientLock _ h.recipientRow rfl
  recipientLock := hn.held h.recipientLock
  other := by
    obtain ⟨u, hu, hm⟩ := h.other
    exact ⟨u, hu, (hA.keeps hn).accounts.subset hm⟩
  senderOpen := h.senderOpen
  recipientOpen := h.recipientOpen
  enough := h.enough
  below := h.below

/-- A movement that is ready stays ready. -/
theorem MoveReady.near {c : Call} {m : Movement} (hA : Abides p Γ)
    (h : MoveReady p c w.sess.held w.db m) (hn : Near Γ w w') :
    MoveReady p c w'.sess.held w'.db m where
  toMoveAllowed := h.toMoveAllowed.near hA hn
  request := h.request.near hA hn
  amount := h.amount
  requestSender := h.requestSender
  status := h.status
  transfer := h.transfer
  body := h.body
  debit := (hA.keeps hn).ledgerAccounts.subset h.debit
  debitOf := h.debitOf
  credit := (hA.keeps hn).ledgerAccounts.subset h.credit
  creditOf := h.creditOf
  journalHeld := hn.held h.journalHeld
  journalFree := hA.same hn h.journalHeld h.journalFree
  transferHeld := hn.held h.transferHeld
  transferFree := hA.same hn h.transferHeld h.transferFree

/-- The end of an execution stays one. -/
theorem ExecEnd.near {c : Call} {r : TransferResult} {f : Store → Store}
    (hA : Abides p Γ) (h : ExecEnd p c r w.sess.held w.db f) (hn : Near Γ w w') :
    ExecEnd p c r w'.sess.held w'.db f := by
  cases h with
  | replayed hr => exact .replayed hr
  | denied q hq hd hr => exact .denied q (hq.near hA hn) hd hr
  | moved m hm hr => exact .moved m (hm.near hA hn) hr

/-! ## Whom a transfer goes to -/

/-- Transfers are added to accounts of `T` only, under identifiers of 128 bits, and
    audits of the caller only. -/
structure AddsTo (user : Nat) (T : Nat → Prop) (f : Store → Store) : Prop where
  transfers : ∀ s, ∃ new, (f s).transfers = s.transfers ++ new ∧
    ∀ t ∈ new, T t.recipient ∧ t.pk < 2 ^ 128
  audits : ∀ s, ∃ new, (f s).transferAudits = s.transferAudits ++ new ∧
    ∀ a ∈ new, a.actor = user

/-- Who leaves transfers and their audit alone adds nothing. -/
theorem AddsTo.of_same {user : Nat} {T : Nat → Prop} {f : Store → Store}
    (htransfers : ∀ s, (f s).transfers = s.transfers)
    (haudits : ∀ s, (f s).transferAudits = s.transferAudits) : AddsTo user T f where
  transfers s := ⟨[], by rw [htransfers, List.append_nil], fun _ ht => nomatch ht⟩
  audits s := ⟨[], by rw [haudits, List.append_nil], fun _ ha => nomatch ha⟩

/-- The account of the user with the name is one of `T`, whenever the two are looked up. -/
def Named (Γ : Ctx Store Lock Exn Obs) (name : String) (T : Nat → Prop) (s : Store) : Prop :=
  ∀ s1 s2 u a, Γ.rely [] s s1 → Γ.rely [] s1 s2 →
    s1.users.find? (·.username == name) = some u →
    s2.accounts.find? (·.user == u.pk) = some a → T a.pk

/-- What others do under some locks they may do under none. -/
theorem rely_of_near (hΓ : Lawful Γ) (hn : Near Γ w w') : Γ.rely [] w.db w'.db :=
  hΓ.anti _ _ _ _ (fun _ h => nomatch h) hn.db

/-- A name goes on naming the same user. -/
theorem Named.near {name : String} {T : Nat → Prop} (hΓ : Lawful Γ) (h : Named Γ name T w.db)
    (hn : Near Γ w w') : Named Γ name T w'.db :=
  fun s1 s2 u a h1 h2 => h s1 s2 u a (hΓ.trans _ _ _ _ (rely_of_near hΓ hn) h1) h2

/-- Any account will do. -/
theorem Named.any {name : String} {s : Store} : Named Γ name (fun _ => True) s :=
  fun _ _ _ _ _ _ _ _ => trivial

/-- How a call ends, whom its transfer goes to, and what it replays. -/
structure Executed (p : Platform) (c : Call) (T : Nat → Prop) (r : TransferResult)
    (w : World Store Lock Obs) : Prop where
  ended : ExecEnd p c r w.sess.held w.db w.sess.pend
  adds : AddsTo c.user T w.sess.pend
  replayed : r.replayed = true →
    ∃ q ∈ w.db.requests, SendsFrom c.user q.sender w.db ∧ q.idempotencyKey = c.key ∧
      q.canonicalPayload = c.payload ∧
      r = { status := q.responseStatus, body := q.responseBody, replayed := true }

theorem Executed.near {c : Call} {T : Nat → Prop} {r : TransferResult} (hA : Abides p Γ)
    (h : Executed p c T r w) (hn : Near Γ w w') (hpend : w'.sess.pend = w.sess.pend) :
    Executed p c T r w' where
  ended := by
    rw [hpend]
    exact h.ended.near hA hn
  adds := by
    rw [hpend]
    exact h.adds
  replayed hr := by
    obtain ⟨q, hq, howner, hsame⟩ := h.replayed hr
    exact ⟨q, (hA.keeps hn).requests.subset hq, howner.keeps (hA.keeps hn), hsame⟩

/-! ## The statements -/

/-- A new key has 128 bits. -/
theorem look_uuid4 (hΓ : Lawful Γ) : Look Γ uuid4 w (fun u _ => u < 2 ^ 128) anyError :=
  Look.bind hΓ Look.fresh fun n _ _ _ => Look.ret hΓ (Nat.mod_lt n (Nat.two_pow_pos 128))

/-- A balance is written under the lock of its account. -/
theorem body_saveBalance (hA : Abides p Γ) (n : Nat) (b : Money) :
    Body Γ (saveBalance n b) w
      (fun _ w' => w'.sess.pend = (fun s => setBalance n b (w.sess.pend s)) ∧
        .row .mockAccount n ∈ w'.sess.held) anyError := by
  have hΓ := hA.lawful
  refine Body.look hΓ (look_raiseIf hΓ fun _ => trivial) fun _ w1 hs1 _ => ?_
  refine Body.mono (body_updateRows hΓ anyError_faults ?_) fun _ w2 _ h => ?_
  · intro held _ hlocks s
    exact hA.leave _ _ _ (respects_updateAccount (fun _ => rfl)
      (hlocks n List.mem_cons_self))
  · rw [hs1.pend] at h
    exact ⟨h.1, h.2 n List.mem_cons_self⟩

/-- The request is stored under its idempotency lock. -/
theorem body_createRequest (hA : Abides p Γ) {sender : Nat} {key : Uuid}
    {payload : String} {status : Nat} {body : ResponseBody} {transfer : Option Uuid}
    (hlock : .advisory (p.idempotencyDigest sender key) false ∈ w.sess.held)
    (hview : ∀ s, (w.sess.pend s).requests = s.requests) :
    Body Γ (createRequest sender key payload status body transfer) w
      (fun _ w' => ∃ n, w'.sess.pend = (fun s => addRequest
          { pk := n, sender := sender, idempotencyKey := key,
            canonicalPayload := payload, responseStatus := status,
            responseBody := body, transfer := transfer } (w.sess.pend s)) ∧
        Settled (.requestKey sender key) w') anyError := by
  have hΓ := hA.lawful
  refine Body.look hΓ Look.fresh fun n w1 hs1 _ => ?_
  refine Body.mono (body_insertRow hΓ anyError_faults trivial ?_) fun _ w2 _ h => ?_
  · intro held hsub hkeys s
    refine hA.leave _ _ _ (respects_addRequest (hkeys _ List.mem_cons_self)
      (hkeys _ (List.mem_cons_of_mem _ List.mem_cons_self)) ?_
      (hsub (hs1.held hlock)))
    intro t ht
    refine hkeys _ (List.mem_cons_of_mem _ (List.mem_cons_of_mem _ ?_))
    exact List.mem_map.mpr ⟨t, Option.mem_toList.mpr ht, rfl⟩
  · refine ⟨n, by rw [h.pend, hs1.pend], h.settled hA
      (List.mem_cons_of_mem _ List.mem_cons_self) fun s hs => ?_⟩
    rw [hs1.pend] at hs
    show (s.requests.any fun r => r.sender == sender && r.idempotencyKey == key) = false
    rw [← hview s]
    exact hs

/-- A denial stores the request, and moves nothing. -/
theorem body_storeDenial (hA : Abides p Γ) {c : Call} {T : Nat → Prop} {sender : MockAccount}
    (howner : SendsFrom c.user sender.pk w.db)
    (hlock : .advisory (p.idempotencyDigest sender.pk c.key) false ∈ w.sess.held)
    (hpend : w.sess.pend = id) :
    Body Γ (storeDenial sender c.key c.payload) w
      (fun r w' => Executed p c T r w' ∧ r.status = 422) anyError := by
  have hΓ := hA.lawful
  refine Body.bind hΓ (body_createRequest hA hlock fun s => by rw [hpend]; rfl)
    fun _ w1 hw1 ⟨n, hp, hsettled⟩ => ?_
  rw [hpend] at hp
  refine Body.ret hΓ ⟨⟨?_, AddsTo.of_same (fun s => ?_) fun s => ?_, fun hr => nomatch hr⟩, rfl⟩
  rotate_left
  · rw [hp]
    rfl
  · rw [hp]
    rfl
  rw [hp]
  refine .denied _ ?_ ⟨rfl, rfl, rfl⟩ rfl
  exact {
    key := rfl
    payload := rfl
    owner := howner.keeps (hA.keeps hw1.toNear)
    lock := hw1.held hlock
    claimed := hsettled.held
    free := hsettled.free }

/-- The ledger account of an account is found. -/
theorem look_ledgerAccountOf (hA : Abides p Γ) (account : MockAccount)
    (hview : ∀ s, (w.sess.pend s).ledgerAccounts = s.ledgerAccounts) :
    Look Γ (ledgerAccountOf account) w
      (fun l w' => l ∈ w'.db.ledgerAccounts ∧ l.mockAccount = some account.pk)
      anyError := by
  have hΓ := hA.lawful
  refine Look.bind hΓ (look_fetch anyError_faults _) fun found w1 hs1 hfound => ?_
  cases found with
  | none => exact Look.raise hΓ trivial
  | some l =>
      refine Look.ret hΓ ?_
      rw [hs1.view, hview] at hfound
      have hof := List.find?_some hfound.symm
      exact ⟨List.mem_of_find?_eq_some hfound.symm, eq_of_beq hof⟩

/-- **SPECIFICATION** of a movement: two balances, one journal of two entries, one transfer. -/
theorem body_moveMoney (hA : Abides p Γ) {c : Call} {name : String} {T : Nat → Prop}
    {sender recipient : MockAccount} (hpend : w.sess.pend = id)
    (hallowed : MoveAllowed p c w.sess.held w.db sender recipient) (hto : T recipient.pk) :
    Body Γ (moveMoney c.user name c.amount c.key c.payload sender recipient) w
      (fun r w' => Executed p c T r w') anyError := by
  have hΓ := hA.lawful
  -- both balances
  refine Body.bind hΓ (body_saveBalance hA _ _) fun _ w1 h1 hp1 => ?_
  refine Body.bind hΓ (body_saveBalance hA _ _) fun _ w2 h2 hp2 => ?_
  -- the journal, and the ledger accounts that it moves between
  refine Body.look hΓ (look_uuid4 hΓ) fun j w3 h3 _ => ?_
  have hpend3 : w3.sess.pend = fun s =>
      setBalance recipient.pk (recipient.balance + c.amount)
        (setBalance sender.pk (sender.balance - c.amount) s) := by
    rw [h3.pend, hp2.1, hp1.1, hpend]
    rfl
  refine Body.bind hΓ (body_insertRow hΓ anyError_faults trivial ?_)
    fun _ w4 h4 hi4 => ?_
  · intro held _ hkeys s
    exact hA.leave _ _ _ (respects_addJournal (hkeys _ List.mem_cons_self)
      fun a hk => nomatch hk)
  have hjournal : Settled (.pk .journal j) w4 :=
    hi4.settled hA List.mem_cons_self fun s hs => by
      rw [hpend3] at hs
      exact hs
  have hpend4 : ∀ s, (w4.sess.pend s).ledgerAccounts = s.ledgerAccounts := fun s => by
    simp only [hi4.pend, hpend3, addJournal, setBalance, updateAccount]
  refine Body.look hΓ (look_ledgerAccountOf hA sender hpend4)
    fun debit w5 h5 hdebit => ?_
  refine Body.look hΓ (look_ledgerAccountOf hA recipient fun s => by
    rw [h5.pend]; exact hpend4 s) fun credit w6 h6 hcredit => ?_
  refine Body.bind hΓ (body_insertRow hΓ anyError_faults trivial fun held _ _ s =>
    hA.leave _ _ _ (respects_addEntries _)) fun _ w7 h7 hi7 => ?_
  -- the transfer
  refine Body.look hΓ (look_uuid4 hΓ) fun t w8 h8 hbits => ?_
  have hpend8 : w8.sess.pend = fun s => addEntries
      [{ journal := j, account := debit.pk, amount := -c.amount },
       { journal := j, account := credit.pk, amount := c.amount }]
      (addJournal { pk := j, kind := .transfer }
        (setBalance recipient.pk (recipient.balance + c.amount)
          (setBalance sender.pk (sender.balance - c.amount) s))) := by
    rw [h8.pend, hi7.pend, h6.pend, h5.pend, hi4.pend, hpend3]
  refine Body.bind hΓ (body_insertRow hΓ anyError_faults trivial ?_)
    fun _ w9 h9 hi9 => ?_
  · intro held _ hkeys s
    exact hA.leave _ _ _ (respects_addTransfer (hkeys _ List.mem_cons_self)
      (hkeys _ (List.mem_cons_of_mem _ List.mem_cons_self)))
  have htransfer : Settled (.pk .transfer t) w9 :=
    hi9.settled hA List.mem_cons_self fun s hs => by
      rw [hpend8] at hs
      exact hs
  have near9 : Near Γ w w9 := (h1.trans hΓ (h2.trans hΓ ((h3.within hΓ).trans hΓ
    (h4.trans hΓ ((h5.within hΓ).trans hΓ ((h6.within hΓ).trans hΓ (h7.trans hΓ
      ((h8.within hΓ).trans hΓ h9)))))))).toNear
  have hview9 : ∀ s, (w9.sess.pend s).requests = s.requests := fun s => by
    simp only [hi9.pend, hpend8, addTransfer, addEntries, addJournal, setBalance,
      updateAccount]
  -- the request with its response, and the audit
  refine Body.bind hΓ (body_createRequest hA (near9.held hallowed.lock) hview9)
    fun _ w10 h10 ⟨n, hp10, hrequest⟩ => ?_
  refine Body.bind hΓ (body_insertRow hΓ anyError_faults trivial fun held _ _ s =>
    hA.leave _ _ _ (respects_addTransferAudit _)) fun _ w11 h11 hi11 => ?_
  -- what was checked earlier holds still at the end
  have near10 : Near Γ w9 w11 := (h10.trans hΓ h11).toNear
  have near5 : Near Γ w5 w11 := ((h6.within hΓ).trans hΓ (h7.trans hΓ
    ((h8.within hΓ).trans hΓ (h9.trans hΓ (h10.trans hΓ h11))))).toNear
  have near6 : Near Γ w6 w11 := (h7.trans hΓ ((h8.within hΓ).trans hΓ
    (h9.trans hΓ (h10.trans hΓ h11)))).toNear
  have hall := hallowed.near hA (near9.trans hΓ near10)
  have hjournal := hjournal.near hA (((h5.within hΓ).toNear).trans hΓ near5)
  have htransfer := htransfer.near hA near10
  have hrequest := hrequest.near hA h11.toNear
  let request : TransferRequest :=
    { pk := n, sender := sender.pk, idempotencyKey := c.key,
      canonicalPayload := c.payload, responseStatus := 201,
      responseBody := completedBody t name c.amount (sender.balance - c.amount),
      transfer := some t }
  let m : Movement :=
    { sender := sender, recipient := recipient, debit := debit, credit := credit,
      amount := c.amount, journal := j, transfer := t, request := request,
      actor := c.user }
  -- all the writes together are the movement
  have hfinal : w11.sess.pend = m.apply := by
    rw [hi11.pend, hp10, hi9.pend, hpend8]
    rfl
  have hrows : ∀ s, (w11.sess.pend s).transfers = s.transfers ++
      [{ pk := t, sender := sender.pk, recipient := recipient.pk, journal := j,
         amount := c.amount }] := fun s => by
    simp only [hi11.pend, hp10, hi9.pend, hpend8, addTransferAudit, addRequest, addTransfer,
      addEntries, addJournal, setBalance, updateAccount]
  have haudits : ∀ s, (w11.sess.pend s).transferAudits = s.transferAudits ++
      [{ actor := c.user, eventType := "TRANSFER_COMPLETED", transfer := some t }] := fun s => by
    simp only [hi11.pend, hp10, hi9.pend, hpend8, addTransferAudit, addRequest, addTransfer,
      addEntries, addJournal, setBalance, updateAccount]
  refine Body.ret hΓ ⟨?_, ⟨fun s => ⟨_, hrows s, ?_⟩, fun s => ⟨_, haudits s, ?_⟩⟩,
    fun hr => nomatch hr⟩
  rotate_left
  · intro x hx
    rw [List.mem_singleton.mp hx]
    exact ⟨hto, hbits⟩
  · intro x hx
    rw [List.mem_singleton.mp hx]
  rw [hfinal]
  refine .moved m ?_ rfl
  have hready : RequestReady p c w11.sess.held w11.db m.request :=
    ⟨rfl, rfl, hall.owner, hall.lock, hrequest.held, hrequest.free⟩
  exact {
    toMoveAllowed := hall
    request := hready
    amount := rfl
    requestSender := rfl
    status := rfl
    transfer := rfl
    body := ⟨name, rfl⟩
    debit := (hA.keeps near5).ledgerAccounts.subset hdebit.1
    debitOf := hdebit.2
    credit := (hA.keeps near6).ledgerAccounts.subset hcredit.1
    creditOf := hcredit.2
    journalHeld := hjournal.held
    journalFree := hjournal.free
    transferHeld := htransfer.held
    transferFree := htransfer.free }

/-! ## `_execute_once` -/

/-- Whether a user is active is read. -/
theorem look_isActiveUser (hΓ : Lawful Γ) (user : Nat) :
    Look Γ (isActiveUser user) w (fun _ _ => True) anyError := by
  refine Look.bind hΓ (look_fetch anyError_faults _) fun found w1 _ _ => ?_
  cases found with
  | false => exact Look.ret hΓ trivial
  | true =>
      refine Look.bind hΓ (look_fetchNow anyError_faults _) fun _ w2 _ _ => ?_
      exact Look.ret hΓ trivial

/-- The rechecks under the locks. -/
theorem look_mayTransfer (hΓ : Lawful Γ) (sender recipient : MockAccount)
    (amount : Money) :
    Look Γ (mayTransfer sender recipient amount) w
      (fun allowed _ => allowed = true → sender.isOpen = true ∧
        recipient.isOpen = true ∧ amount ≤ sender.balance ∧
        recipient.balance + amount ≤ MAX_BALANCE) anyError := by
  by_cases hopen : (!sender.isOpen || !recipient.isOpen) = true
  · rw [mayTransfer, if_pos hopen]
    exact Look.ret hΓ fun h => nomatch h
  · rw [mayTransfer, if_neg hopen]
    rw [Bool.or_eq_true, not_or, Bool.not_eq_true', Bool.not_eq_true'] at hopen
    refine Look.bind hΓ (look_isActiveUser hΓ _) fun senderActive w1 _ _ => ?_
    cases senderActive with
    | false => exact Look.ret hΓ fun h => nomatch h
    | true =>
        refine Look.bind hΓ (look_isActiveUser hΓ _) fun recipientActive w2 _ _ => ?_
        cases recipientActive with
        | false => exact Look.ret hΓ fun h => nomatch h
        | true =>
            refine Look.ret hΓ fun h => ?_
            rw [Bool.not_eq_true', Bool.or_eq_false_iff, decide_eq_false_iff_not,
              decide_eq_false_iff_not, Int.not_lt, gt_iff_lt, Int.not_lt] at h
            exact ⟨by simpa using hopen.1, by simpa using hopen.2, h.1, h.2⟩

/-- **SPECIFICATION** of a call whose key is new. -/
theorem body_executeNew (hA : Abides p Γ) {c : Call} {name : String} {T : Nat → Prop}
    {sender : MockAccount} (hpend : w.sess.pend = id) (hnamed : Named Γ name T w.db)
    (howner : SendsFrom c.user sender.pk w.db)
    (hlock : .advisory (p.idempotencyDigest sender.pk c.key) false ∈ w.sess.held)
    (hsafetyLock : .advisory SAFETY_LOCK_KEY true ∈ w.sess.held)
    (hsafety : ∃ t, w.db.safety = some t ∧ t.state = .opened) :
    Body Γ (executeNew c.user name c.amount c.key c.payload sender) w
      (fun r w' => Executed p c T r w') anyError := by
  have hΓ := hA.lawful
  -- A denial, wherever it comes, is stored under the same lock.
  have deny : ∀ w1 (a : MockAccount), Still Γ w w1 → a.pk = sender.pk →
      Body Γ (storeDenial a c.key c.payload) w1 (fun r w' => Executed p c T r w')
        anyError := by
    intro w1 a hs ha
    refine (body_storeDenial hA ?_ ?_ (hs.pend.trans hpend)).mono fun _ _ _ h => h.1
    · rw [ha]
      exact howner.keeps (hA.keeps hs.toNear)
    · rw [ha]
      exact hs.held hlock
  refine Body.look hΓ (look_fetch anyError_faults _) fun user w1 h1 hnamesake => ?_
  rw [h1.view, hpend] at hnamesake
  cases user with
  | none => exact deny w1 sender h1 rfl
  | some user =>
      dsimp only
      by_cases hself : (user.pk == c.user) = true
      · rw [if_pos hself]
        exact deny w1 sender h1 rfl
      · rw [if_neg hself]
        refine Body.look hΓ (look_fetch anyError_faults _) fun found w2 h2 hfound => ?_
        have h02 : Still Γ w w2 := h1.trans hΓ h2
        cases found with
        | none => exact deny w2 sender h02 rfl
        | some found =>
            rw [h02.view, hpend] at hfound
            have hmem : found ∈ w2.db.accounts :=
              List.mem_of_find?_eq_some hfound.symm
            have huser := List.find?_some hfound.symm
            refine Body.look hΓ (look_selectForUpdate hΓ anyError_faults _ _ _ _)
              fun rows w3 h3 hrows => ?_
            have h03 : Still Γ w w3 := h02.trans hΓ h3
            -- both rows are read again under their locks
            cases hs : rows.find? (·.pk == sender.pk) with
            | none => exact Body.raise hΓ trivial
            | some a =>
                cases hr : rows.find? (·.pk == found.pk) with
                | none => exact Body.raise hΓ trivial
                | some b =>
                    have hapk := List.find?_some hs
                    have hbpk := List.find?_some hr
                    rw [beq_iff_eq] at hapk hbpk
                    have ha := List.mem_of_find?_eq_some hs
                    have hb := List.mem_of_find?_eq_some hr
                    refine Body.look hΓ (look_mayTransfer hΓ a b c.amount)
                      fun allowed w4 h4 hallowed => ?_
                    have h04 : Still Γ w w4 := h03.trans hΓ h4
                    cases allowed with
                    | false => exact deny w4 a h04 hapk
                    | true =>
                        obtain ⟨hao, hbo, henough, hbelow⟩ := hallowed rfl
                        have hview : w3.view = w3.db := by
                          rw [h03.view, hpend]
                          rfl
                        have hared := (hrows.mem ha).1
                        have hbred := (hrows.mem hb).1
                        rw [hview] at hared hbred
                        refine body_moveMoney hA (h04.pend.trans hpend) ?_ ?_
                        rotate_left
                        · rw [hbpk]
                          exact hnamed _ _ user found (rely_of_near hΓ h1.toNear)
                            (rely_of_near hΓ h2.toNear) hnamesake.symm hfound.symm
                        exact {
                          lock := by rw [hapk]; exact h04.held hlock
                          owner := by
                            rw [hapk]
                            exact howner.keeps (hA.keeps h04.toNear)
                          safetyLock := h04.held hsafetyLock
                          safety := by
                            obtain ⟨t, ht, ho⟩ := hsafety
                            have hsame := (hA.same h04.toNear hsafetyLock).1 rfl
                              (by rw [ht]; rfl)
                            exact ⟨t, hsame.trans ht, ho⟩
                          senderRow := hA.same h4.toNear (hrows.held a ha) _ hared rfl
                          senderLock := h4.held (hrows.held a ha)
                          recipientRow := hA.same h4.toNear (hrows.held b hb) _ hbred rfl
                          recipientLock := h4.held (hrows.held b hb)
                          other := by
                            refine ⟨user.pk, fun e => hself (beq_iff_eq.mpr e), ?_⟩
                            refine (hA.keeps (h3.trans hΓ h4).toNear).accounts.subset ?_
                            rw [hbpk, ← eq_of_beq huser]
                            exact List.mem_map.mpr ⟨found, hmem, rfl⟩
                          senderOpen := hao
                          recipientOpen := hbo
                          enough := henough
                          below := hbelow }

/-- **SPECIFICATION** of a call whose key is taken. -/
theorem body_replay (hΓ : Lawful Γ) {c : Call} {T : Nat → Prop} {previous : TransferRequest}
    (hpend : w.sess.pend = id) (hstored : previous ∈ w.db.requests)
    (howner : SendsFrom c.user previous.sender w.db) (hkey : previous.idempotencyKey = c.key) :
    Body Γ (replay previous c.payload) w
      (fun r w' => Executed p c T r w' ∧ r.replayed = true) anyError := by
  by_cases hne : (previous.canonicalPayload != c.payload) = true
  · rw [replay, if_pos hne]
    exact Body.raise hΓ trivial
  · rw [replay, if_neg hne]
    rw [Bool.not_eq_true, bne_eq_false_iff_eq] at hne
    refine Body.ret hΓ ⟨⟨?_, AddsTo.of_same (fun s => ?_) fun s => ?_,
      fun _ => ⟨previous, hstored, howner, hkey, hne, rfl⟩⟩, rfl⟩
    · rw [hpend]
      exact .replayed rfl
    · rw [hpend]
      rfl
    · rw [hpend]
      rfl

/-- The request that was found under a key is one of the sender's. -/
theorem LockedFirst.request {c : Call} {sender : Nat} {previous : TransferRequest}
    (h : LockedFirst Γ w .request (·.requests) (·.pk)
      (fun r => r.sender == sender && r.idempotencyKey == c.key) (some previous) w')
    (hpend : w'.sess.pend = id) (howner : SendsFrom c.user sender w'.db) :
    previous ∈ w'.db.requests ∧ SendsFrom c.user previous.sender w'.db ∧
      previous.idempotencyKey = c.key := by
  obtain ⟨hmem, hq, -⟩ := h
  have hview : w'.view = w'.db := by
    rw [World.view, hpend]
    rfl
  rw [hview] at hmem
  rw [Bool.and_eq_true, beq_iff_eq, beq_iff_eq] at hq
  rw [hq.1]
  exact ⟨hmem, howner, hq.2⟩

/-- **SPECIFICATION** of `_execute_once`, up to its commit. -/
theorem body_executeOnceBody (hA : Abides p Γ) {c : Call} {name : String} {T : Nat → Prop}
    {requestPayload : Option String}
    (hpayload : payloadOf name c.amount requestPayload = c.payload)
    (hpend : w.sess.pend = id) (hnamed : Named Γ name T w.db) :
    Body Γ (executeOnceBody p c.user name c.amount c.key requestPayload) w
      (fun r w' => Executed p c T r w') anyError := by
  have hΓ := hA.lawful
  refine Body.look hΓ (look_getRow hΓ anyError_faults _ _ trivial)
    fun sender w1 h1 hsender => ?_
  rw [h1.view, hpend] at hsender
  have howner : SendsFrom c.user sender.pk w1.db := sendsFrom_of_find hsender
  refine Body.look hΓ (Look.acquire anyError_faults _) fun _ w2 h2 hsafetyLock => ?_
  refine Body.look hΓ (Look.acquire anyError_faults _) fun _ w3 h3 hlock => ?_
  refine Body.look hΓ (look_firstForUpdate hΓ anyError_faults _ _ _ _)
    fun previous w4 h4 hprevious => ?_
  have h14 : Still Γ w1 w4 := h2.trans hΓ (h3.trans hΓ h4)
  have hpend4 : w4.sess.pend = id := (h1.trans hΓ h14).pend.trans hpend
  cases previous with
  | some previous =>
      show Body Γ (replay previous (payloadOf name c.amount requestPayload))
        w4 _ _
      rw [hpayload]
      obtain ⟨hstored, hsender, hkey⟩ := LockedFirst.request hprevious hpend4
        (howner.keeps (hA.keeps h14.toNear))
      exact (body_replay hΓ hpend4 hstored hsender hkey).mono fun _ _ _ h => h.1
  | none =>
      refine Body.look hΓ (look_getRow hΓ anyError_faults _ _ trivial)
        fun safety w5 h5 hsafety => ?_
      refine Body.look hΓ (look_raiseIf hΓ fun _ => trivial)
        fun _ w6 h6 hopened => ?_
      rw [hpayload]
      have h16 : Still Γ w1 w6 := h14.trans hΓ (h5.trans hΓ h6)
      have hlocked5 : .advisory SAFETY_LOCK_KEY true ∈ w5.sess.held :=
        (h3.trans hΓ (h4.trans hΓ h5)).held hsafetyLock
      refine body_executeNew hA ((h1.trans hΓ h16).pend.trans hpend)
        (hnamed.near hΓ (h1.trans hΓ h16).toNear) (howner.keeps (hA.keeps h16.toNear))
        ((h4.trans hΓ (h5.trans hΓ h6)).held hlock) (h6.held hlocked5) ?_
      rw [h5.view, hpend4] at hsafety
      have hsafety : w5.db.safety = some safety := hsafety
      refine ⟨safety, ?_, ?_⟩
      · have hsame := (hA.same h6.toNear hlocked5).1 rfl (by rw [hsafety]; rfl)
        exact hsame.trans hsafety
      · cases hst : safety.state with
        | opened => rfl
        | blocked =>
            rw [hst] at hopened
            exact nomatch hopened

/-! ## `transfer` inside a transaction -/

/-- **RETRIES** of `transfer` in savepoints: an attempt that fails leaves nothing. -/
theorem body_attempts (hA : Abides p Γ) {c : Call} {name : String} {T : Nat → Prop}
    {requestPayload : Option String}
    (hpayload : payloadOf name c.amount requestPayload = c.payload) (left : Nat) :
    ∀ {w : World Store Lock Obs}, w.sess.pend = id → w.sess.frames ≠ [] → Named Γ name T w.db →
      Body Γ (attempts (executeOnce p c.user name c.amount c.key requestPayload) left) w
        (fun r w' => Executed p c T r w') anyError := by
  have hΓ := hA.lawful
  have once : ∀ {w w' : World Store Lock Obs}, w.sess.pend = id → Named Γ name T w.db →
      Env Γ w w' →
      Body Γ (executeOnceBody p c.user name c.amount c.key requestPayload) w'.begin
        (fun r w1 => Executed p c T r w1) anyError := by
    intro w w' hpend hnamed he
    refine body_executeOnceBody hA hpayload ?_ ?_
    · rw [World.begin_pend, he.sess]
      exact hpend
    · rw [World.begin_db]
      exact hnamed.near hΓ he.still.toNear
  have kept : ∀ {r : TransferResult} {w1 w2 : World Store Lock Obs},
      Executed p c T r w1 → Env Γ w1 w2 → Executed p c T r w2.release := by
    intro r w1 w2 h he
    have hpend : w2.sess.pend = w1.sess.pend := by rw [he.sess]
    have h2 : Executed p c T r w2 := h.near hA he.still.toNear hpend
    exact ⟨h2.ended, h2.adds, h2.replayed⟩
  induction left with
  | zero =>
      intro w hpend hopen hnamed
      refine Body.catchAtomic (G := anyError) hΓ hopen anyError_faults
        (fun w' he => once hpend hnamed he) (fun w' a w1 w2 _ _ h he => kept h he) ?_
      intro e w1 hs _
      cases e with
      | operationalError sqlstate =>
          dsimp only
          cases retryable sqlstate <;> exact Body.raise hΓ trivial
      | _ => exact Body.raise hΓ trivial
  | succ left ih =>
      intro w hpend hopen hnamed
      refine Body.catchAtomic (G := anyError) hΓ hopen anyError_faults
        (fun w' he => once hpend hnamed he) (fun w' a w1 w2 _ _ h he => kept h he) ?_
      intro e w1 hs _
      cases e with
      | operationalError sqlstate =>
          dsimp only
          cases retryable sqlstate with
          | false => exact Body.raise hΓ trivial
          | true =>
              refine ih (hs.pend.trans hpend) ?_ (hnamed.near hΓ hs.toNear)
              rw [hs.frames]
              exact hopen
      | _ => exact Body.raise hΓ trivial

/-! ## Notifications of a room transfer -/

def addNotifications (notes : List Notification) (s : Store) : Store :=
  { s with notifications := s.notifications ++ notes }

theorem addNotifications_nil (s : Store) : addNotifications [] s = s := by
  show { s with notifications := s.notifications ++ [] } = s
  rw [List.append_nil]

/-- Notices are added one list after the other. -/
theorem addNotifications_append (a b : List Notification) (s : Store) :
    addNotifications b (addNotifications a s) = addNotifications (a ++ b) s := by
  show { s with notifications := (s.notifications ++ a) ++ b } = _
  rw [List.append_assoc]
  rfl

/-- At most `n` notifications were added, and nothing else written. -/
def Notified (n : Nat) (w w' : World Store Lock Obs) : Prop :=
  ∃ notes : List Notification, notes.length ≤ n ∧
    w'.sess.pend = fun s => addNotifications notes (w.sess.pend s)

/-- Nobody is told where nothing was written. -/
theorem Notified.zero {n : Nat} (h : w'.sess.pend = w.sess.pend) : Notified n w w' := by
  refine ⟨[], Nat.zero_le _, ?_⟩
  rw [h]
  funext s
  exact (addNotifications_nil _).symm

/-- The notification was there, or it is added now. -/
inductive Noticed (Γ : Ctx Store Lock Exn Obs) (recipient : Nat) (eventKey kind : String)
    (payload : JsonObject) (w w' : World Store Lock Obs) : Prop where
  | found (n : Notification) (s : Store) : Γ.rely [] w.db s → Γ.rely [] s w'.db →
      n ∈ (w.sess.pend s).notifications → n.recipient = recipient → n.eventKey = eventKey →
      w'.sess.pend = w.sess.pend → Noticed Γ recipient eventKey kind payload w w'
  | created (n : Notification) (s : Store) : n.recipient = recipient → n.eventKey = eventKey →
      n.kind = kind → n.payload = payload → Γ.rely [] w.db s →
      Γ.rely [.unique (.notification recipient eventKey)] s w'.db →
      .unique (.notification recipient eventKey) ∈ w'.sess.held →
      (Index.notification recipient eventKey).present (w.sess.pend s) = false →
      w'.sess.pend = (fun s => addNotifications [n] (w.sess.pend s)) →
      Noticed Γ recipient eventKey kind payload w w'

/-- One notice at most. -/
theorem Noticed.notified {recipient : Nat} {eventKey kind : String} {payload : JsonObject}
    (h : Noticed Γ recipient eventKey kind payload w w') : Notified 1 w w' := by
  cases h with
  | found _ _ _ _ _ _ _ hp => exact Notified.zero hp
  | created n _ _ _ _ _ _ _ _ _ hp => exact ⟨[n], Nat.le_refl 1, hp⟩

/-- The recipient is locked, and told once. -/
theorem body_createNotificationBody (hA : Abides p Γ) (recipient : Nat)
    (eventKey kind : String) (payload : JsonObject) (hopen : w.sess.frames ≠ []) :
    Body Γ (createNotificationBody recipient eventKey kind payload) w
      (fun _ w' => Noticed Γ recipient eventKey kind payload w w') anyError := by
  have hΓ := hA.lawful
  refine Body.look hΓ (look_raiseIf hΓ fun _ => trivial) fun _ w1 h1 _ => ?_
  refine Body.look (P := fun (user : User) w' => user.pk = recipient ∧
    .row .user user.pk ∈ w'.sess.held) hΓ (Look.tryCatch (G := anyError) hΓ
      ((look_getForUpdate hΓ anyError_faults _ _ _ _ trivial).mono fun user _ _ hr => ⟨?_, hr.2.2⟩)
      fun e w2 _ _ => ?_) fun user w2 h2 ⟨huser, hlock⟩ => ?_
  · obtain ⟨-, hq, -⟩ := hr
    rw [Bool.and_eq_true, Bool.and_eq_true, beq_iff_eq] at hq
    exact hq.1.1
  · split <;> exact Look.raise hΓ trivial
  have h02 : Still Γ w w2 := h1.trans hΓ h2
  refine body_getOrCreate hΓ anyError_faults ?_ ?_ ?_
  · rw [h02.frames]
    exact hopen
  · -- a notification of this key is there already
    intro w3 h3
    refine (look_fetch anyError_faults _).mono fun found w4 h4 hfound n hn => ?_
    have hsome := hfound.symm.trans hn
    have hq := List.find?_some hsome
    rw [Bool.and_eq_true, beq_iff_eq, beq_iff_eq] at hq
    have h04 : Still Γ w w4 := h02.trans hΓ (h3.trans hΓ h4)
    rw [h04.view] at hsome
    exact .found n w4.db (rely_of_near hΓ h04.toNear) (hΓ.refl [] w4.db)
      (List.mem_of_find?_eq_some hsome) (hq.1.trans huser) hq.2 h04.pend
  · -- none: it is inserted under the lock of its recipient
    intro w3 w4 h3 he
    refine Body.look hΓ Look.fresh fun n w5 h5 _ => ?_
    refine Body.bind hΓ (body_insertRow hΓ anyError_faults trivial ?_)
      fun _ w6 _ hi => ?_
    · intro held hsub hkeys s
      have hlock5 : .row .user user.pk ∈ w5.sess.held := by
        refine h5.held ?_
        rw [World.begin_held, he.sess]
        exact h3.held hlock
      exact hA.leave _ _ _ (respects_addNotification (hkeys _ List.mem_cons_self)
        (hkeys _ (List.mem_cons_of_mem _ List.mem_cons_self)) (hsub hlock5))
    · let note : Notification :=
        { pk := n, recipient := user.pk, eventKey := eventKey, kind := kind,
          payload := payload }
      obtain ⟨w8, h58, h86, hkeys, hfree⟩ := hi.free
      have hlast := hkeys _ (List.mem_cons_of_mem _ List.mem_cons_self)
      have hpend8 : w8.sess.pend = w.sess.pend := by
        rw [h58.pend, h5.pend, World.begin_pend, he.sess, (h02.trans hΓ h3).pend]
      refine Body.ret hΓ fun w7 he7 => .created note w8.db huser rfl rfl rfl ?_ ?_ ?_ ?_ ?_
      · have h48 : Γ.rely [] w4.begin.db w8.db := rely_of_near hΓ (h5.trans hΓ h58).toNear
        have h08 : Γ.rely [] w3.db w8.db :=
          hΓ.trans _ _ _ _ (rely_of_near hΓ he.still.toNear) h48
        exact hΓ.trans _ _ _ _ (rely_of_near hΓ (h02.trans hΓ h3).toNear) h08
      · have h87 : Near Γ w8 w7 := h86.toNear.trans hΓ he7.still.toNear
        rw [← huser]
        exact hΓ.anti _ _ _ _ (fun x hx => by rw [List.mem_singleton.mp hx]; exact hlast) h87.db
      · show .unique _ ∈ w7.sess.held
        rw [he7.sess, ← huser]
        exact h86.held hlast
      · have hnone := hfree _ (List.mem_cons_of_mem _ List.mem_cons_self)
        rw [World.view, hpend8, huser] at hnone
        exact hnone
      · show w7.sess.pend = _
        rw [he7.sess, hi.pend, h5.pend, World.begin_pend, he.sess,
          (h02.trans hΓ h3).pend]
        rfl

theorem body_createNotification (hA : Abides p Γ) (recipient : Nat)
    (eventKey kind : String) (payload : JsonObject) (hopen : w.sess.frames ≠ []) :
    Body Γ (createNotification recipient eventKey kind payload) w
      (fun _ w' => Noticed Γ recipient eventKey kind payload w w') anyError := by
  have hΓ := hA.lawful
  refine (Body.atomic (P := fun w' _ w1 => Noticed Γ recipient eventKey kind payload w'.begin w1)
    hΓ anyError_faults hopen fun w' he => ?_).mono ?_
  · refine body_createNotificationBody hA recipient eventKey kind payload ?_
    rw [World.begin_frames]
    exact List.cons_ne_nil _ _
  · rintro a w3 _ ⟨w', w1, w2, he, -, hnoticed, he2, rfl⟩
    have hbegin : w'.begin.sess.pend = w.sess.pend := by rw [World.begin_pend, he.sess]
    have hend : w2.release.sess.pend = w1.sess.pend := by
      show w2.sess.pend = _
      rw [he2.sess]
    cases hnoticed with
    | found n s hs hs1 hn hrecipient hkey hp =>
        refine .found n s (hΓ.trans _ _ _ _ (rely_of_near hΓ he.still.toNear) hs)
          (hΓ.trans _ _ _ _ hs1 (show Γ.rely [] w1.db w2.db from
            rely_of_near hΓ he2.still.toNear)) ?_
          hrecipient hkey ((hend.trans hp).trans hbegin)
        rw [← hbegin]
        exact hn
    | created n s hrecipient hkey hkind hpayload hs hs1 hheld hfree hp =>
        refine .created n s hrecipient hkey hkind hpayload
          (hΓ.trans _ _ _ _ (rely_of_near hΓ he.still.toNear) hs)
          (hΓ.trans _ _ _ _ hs1 (show Γ.rely [.unique (.notification recipient eventKey)]
            w1.db w2.db from hΓ.anti _ _ _ _ (fun x hx => ?_) he2.db)) ?_ ?_ ?_
        · rw [List.mem_singleton.mp hx]
          exact hheld
        · show _ ∈ w2.sess.held
          rw [he2.sess]
          exact hheld
        · rw [← hbegin]
          exact hfree
        · rw [hend, hp, hbegin]

/-- What the two calls for the parties of a transfer do, one after the other. -/
def BothNoticed (Γ : Ctx Store Lock Exn Obs) (sender recipient : Nat) (transferId : Uuid)
    (amount : Money) (w w' : World Store Lock Obs) : Prop :=
  ∃ (names : List User) (w1 w2 : World Store Lock Obs), Still Γ w w1 ∧ Within Γ w1 w2 ∧
    Noticed Γ sender (senderEventKey transferId) "TRANSFER_SENT"
      (transferPayload transferId amount (counterpartyName names recipient)) w1 w2 ∧
    Noticed Γ recipient (recipientEventKey transferId) "TRANSFER_RECEIVED"
      (transferPayload transferId amount (counterpartyName names sender)) w2 w'

theorem BothNoticed.notified {sender recipient : Nat} {transferId : Uuid} {amount : Money}
    (h : BothNoticed Γ sender recipient transferId amount w w') : Notified 2 w w' := by
  obtain ⟨names, w1, w2, h1, -, hsent, hreceived⟩ := h
  obtain ⟨notes, hlen, hp⟩ := hsent.notified
  obtain ⟨notes', hlen', hp'⟩ := hreceived.notified
  refine ⟨notes ++ notes', ?_, ?_⟩
  · rw [List.length_append]
    omega
  · rw [hp', hp, h1.pend]
    funext s
    exact addNotifications_append _ _ _

theorem body_createTransferNotifications (hA : Abides p Γ) (sender recipient : Nat)
    (transferId : Uuid) (amount : Money) (hopen : w.sess.frames ≠ []) :
    Body Γ (createTransferNotifications sender recipient transferId amount) w
      (fun _ w' => BothNoticed Γ sender recipient transferId amount w w') anyError := by
  have hΓ := hA.lawful
  refine Body.look hΓ (look_fetch anyError_faults _) fun names w1 h1 _ => ?_
  refine Body.bind hΓ (body_createNotification hA _ _ _ _ ?_)
    fun ⟨senderNotice, _⟩ w2 h2 hsent => ?_
  · rw [h1.frames]
    exact hopen
  · refine Body.bind hΓ (body_createNotification hA _ _ _ _ ?_)
      fun ⟨recipientNotice, _⟩ w3 h3 hreceived => Body.ret hΓ
        ⟨names, w1, w2, h1, h2, hsent, hreceived⟩
    rw [h2.frames, h1.frames]
    exact hopen

/-- How many notifications a result may bring: two when the transfer is new. -/
def TransferResult.notices (r : TransferResult) : Nat :=
  if r.status == 201 && !r.replayed then 2 else 0

/-- Both parties of a new transfer are told, and nobody of anything else. -/
structure Informed (Γ : Ctx Store Lock Exn Obs) (sender recipient : Nat) (amount : Money)
    (r : TransferResult) (w w' : World Store Lock Obs) : Prop where
  notified : Notified r.notices w w'
  told : r.notices = 2 → ∀ t status name amountText balanceText,
    r.body = .completed t status name amountText balanceText →
    BothNoticed Γ sender recipient t amount w w'

theorem body_notifyTransfer (hA : Abides p Γ) (user : Nat) (recipient : User)
    (amount : Money) (r : TransferResult) (hopen : w.sess.frames ≠ []) :
    Body Γ (notifyTransfer user recipient amount r) w
      (fun _ w' => Informed Γ user recipient.pk amount r w w') anyError := by
  have hΓ := hA.lawful
  by_cases hnew : (r.status == 201 && !r.replayed) = true
  · have hnotices : r.notices = 2 := by rw [TransferResult.notices, if_pos hnew]
    rw [notifyTransfer, if_pos hnew]
    cases hbody : r.body with
    | error code => exact Body.raise hΓ trivial
    | completed t status name amountText balanceText =>
        refine Body.bind hΓ (body_createTransferNotifications hA user recipient.pk t
          amount hopen) fun _ w1 _ h => Body.ret hΓ ⟨?_, fun _ => ?_⟩
        · rw [hnotices]
          exact h.notified
        · intro t' status' name' amountText' balanceText' he
          cases hbody.symm.trans he
          exact h
  · have hnotices : r.notices = 0 := by rw [TransferResult.notices, if_neg hnew]
    rw [notifyTransfer, if_neg hnew]
    refine Body.ret hΓ ⟨Notified.zero rfl, fun h2 => ?_⟩
    rw [hnotices] at h2
    exact nomatch h2

/-! ## `transfer_for_product_room` -/

theorem canonicalRoomPayload_nonempty (room : Nat) (amount : Money) :
    (canonicalRoomPayload room amount).isEmpty = false := by
  rw [Bool.eq_false_iff]
  intro h
  rw [String.isEmpty_iff] at h
  have hlist := congrArg String.toList h
  rw [canonicalRoomPayload, String.toList_append, String.toList_append,
    String.toList_append, String.toList_append] at hlist
  exact nomatch hlist

theorem payloadOf_room (name : String) (room : Nat) (amount : Money) :
    payloadOf name amount (some (canonicalRoomPayload room amount)) =
      canonicalRoomPayload room amount := by
  have hne : ¬ (canonicalRoomPayload room amount).isEmpty = true := by
    rw [canonicalRoomPayload_nonempty]
    exact Bool.false_ne_true
  rw [payloadOf, if_neg hne]

theorem look_findConversation (hΓ : Lawful Γ) (room : Nat) :
    Look Γ (findConversation room) w
      (fun found w' => ∀ row, found = some row → joinConversation room w'.view = some row)
      anyError := by
  refine Look.tryCatch (G := anyError) hΓ ?_ fun e w1 _ _ => ?_
  · refine Look.bind (P := fun row w' => joinConversation room w'.view = some row) hΓ ?_
      fun row w1 _ h => Look.ret hΓ fun row' hr => ?_
    · refine Look.bind hΓ (look_fetch anyError_faults _) fun found w1 _ _ => ?_
      cases found with
      | none => exact Look.raise hΓ trivial
      | some row =>
          refine Look.bind hΓ (Look.acquireAll hΓ anyError_faults _) fun _ w2 _ _ => ?_
          refine Look.bind hΓ (look_fetch anyError_faults _) fun again w3 _ h => ?_
          cases again with
          | none => exact Look.raise hΓ trivial
          | some row => exact Look.ret hΓ h.symm
    · cases hr
      exact h
  · split
    · exact Look.ret hΓ fun _ hr => nomatch hr
    · exact Look.raise hΓ trivial

/-- How a call of either endpoint ends inside its transaction. -/
def CallEnd (p : Platform) (c : Call) (r : TransferResult) (held : List Lock) (s : Store)
    (g : Store → Store) : Prop :=
  ∃ (f : Store → Store) (notes : List Notification), ExecEnd p c r held s f ∧
    notes.length ≤ r.notices ∧ g = fun s => addNotifications notes (f s)

theorem CallEnd.of_exec {c : Call} {r : TransferResult} {held : List Lock} {s : Store}
    {f : Store → Store} (h : ExecEnd p c r held s f) : CallEnd p c r held s f := by
  refine ⟨f, [], h, Nat.zero_le _, ?_⟩
  funext s
  exact (addNotifications_nil _).symm

theorem CallEnd.near {c : Call} {r : TransferResult} {g : Store → Store}
    (hA : Abides p Γ) (h : CallEnd p c r w.sess.held w.db g) (hn : Near Γ w w') :
    CallEnd p c r w'.sess.held w'.db g := by
  obtain ⟨f, notes, hf, hlen, hg⟩ := h
  exact ⟨f, notes, hf.near hA hn, hlen, hg⟩

/-- How a call from a room ends that began in `w`: what was executed, and then who was
    told. -/
def Told (Γ : Ctx Store Lock Exn Obs) (p : Platform) (c : Call) (w : World Store Lock Obs)
    (r : TransferResult) (w' : World Store Lock Obs) : Prop :=
  ∃ (recipient : Nat) (w1 : World Store Lock Obs), Within Γ w w1 ∧
    Executed p c (fun _ => True) r w1 ∧ Within Γ w1 w' ∧
    Informed Γ c.user recipient c.amount r w1 w'

/-- Without a new transfer there is nobody to tell. -/
theorem Told.none (hΓ : Lawful Γ) {c : Call} {r : TransferResult} (hw : Within Γ w w')
    (h : Executed p c (fun _ => True) r w') (hr : r.notices = 0) : Told Γ p c w r w' := by
  refine ⟨0, w', hw, h, Within.refl hΓ w', Notified.zero rfl, fun h2 => ?_⟩
  rw [hr] at h2
  cases h2

theorem Told.after (hΓ : Lawful Γ) {c : Call} {r : TransferResult}
    {w0 : World Store Lock Obs} (hw : Within Γ w0 w) (h : Told Γ p c w r w') :
    Told Γ p c w0 r w' := by
  obtain ⟨recipient, w1, hw1, hrest⟩ := h
  exact ⟨recipient, w1, hw.trans hΓ hw1, hrest⟩

theorem Told.callEnd (hA : Abides p Γ) {c : Call} {r : TransferResult}
    (h : Told Γ p c w r w') : CallEnd p c r w'.sess.held w'.db w'.sess.pend := by
  obtain ⟨recipient, w1, -, hexec, hw, ⟨notes, hlen, hp⟩, -⟩ := h
  exact ⟨_, notes, hexec.ended.near hA hw.toNear, hlen, hp⟩

theorem body_roomTransferNew (hA : Abides p Γ) {c : Call} {room : Nat}
    {sender : MockAccount} (hpayload : c.payload = canonicalRoomPayload room c.amount)
    (howner : SendsFrom c.user sender.pk w.db)
    (hlock : .advisory (p.idempotencyDigest sender.pk c.key) false ∈ w.sess.held)
    (hpend : w.sess.pend = id) (hopen : w.sess.frames ≠ []) :
    Body Γ (roomTransferNew p c.user room c.amount c.key sender) w (Told Γ p c w)
      anyError := by
  have hΓ := hA.lawful
  have deny : ∀ w1, Still Γ w w1 →
      Body Γ (storeDenial sender c.key (canonicalRoomPayload room c.amount)) w1 (Told Γ p c w)
        anyError := by
    intro w1 hs
    rw [← hpayload]
    refine (body_storeDenial hA (howner.keeps (hA.keeps hs.toNear)) (hs.held hlock)
      (hs.pend.trans hpend)).mono fun r w2 h2 h =>
        Told.none hΓ ((hs.within hΓ).trans hΓ h2) h.1 ?_
    rw [TransferResult.notices, h.2]
    rfl
  refine Body.look hΓ (look_findConversation hΓ room) fun found w1 h1 _ => ?_
  cases found with
  | none => exact deny w1 h1
  | some row =>
      obtain ⟨conversation, chatRoom, seller, buyer⟩ := row
      dsimp only
      by_cases hkind : (chatRoom.kind != .product) = true
      · rw [if_pos hkind]
        exact deny w1 h1
      · rw [if_neg hkind]
        cases counterparty c.user conversation seller buyer with
        | none => exact deny w1 h1
        | some recipient =>
            refine Body.bind hΓ (body_attempts hA ?_ 3 (h1.pend.trans hpend) ?_ Named.any)
              fun r w2 h2 hr => ?_
            · rw [payloadOf_room, hpayload]
            · rw [h1.frames]
              exact hopen
            · refine Body.bind hΓ (body_notifyTransfer hA _ _ _ _ ?_)
                fun _ w3 h3 htold => Body.ret hΓ
                  ⟨_, w2, (h1.within hΓ).trans hΓ h2, hr, h3, htold⟩
              rw [h2.frames, h1.frames]
              exact hopen

/-- **SPECIFICATION** of `transfer_for_product_room`, up to its commit. -/
theorem body_transferForProductRoom (hA : Abides p Γ) {c : Call} {room : Nat}
    (hpayload : c.payload = canonicalRoomPayload room c.amount)
    (hpend : w.sess.pend = id) (hopen : w.sess.frames ≠ []) :
    Body Γ (transferForProductRoomBody p c.user room c.amount c.key) w
      (Told Γ p c w) anyError := by
  have hΓ := hA.lawful
  refine Body.look hΓ (look_getRow hΓ anyError_faults _ _ trivial)
    fun sender w1 h1 hsender => ?_
  rw [h1.view, hpend] at hsender
  have howner : SendsFrom c.user sender.pk w1.db := sendsFrom_of_find hsender
  refine Body.look hΓ (Look.acquire anyError_faults _) fun _ w2 h2 hlock => ?_
  refine Body.look hΓ (look_firstForUpdate hΓ anyError_faults _ _ _ _)
    fun previous w3 h3 hprevious => ?_
  have h13 : Still Γ w1 w3 := h2.trans hΓ h3
  have h03 : Still Γ w w3 := h1.trans hΓ h13
  cases previous with
  | some previous =>
      dsimp only
      rw [← hpayload]
      obtain ⟨hstored, hsender, hkey⟩ := LockedFirst.request hprevious
        (h03.pend.trans hpend) (howner.keeps (hA.keeps h13.toNear))
      refine (body_replay hΓ (h03.pend.trans hpend) hstored hsender hkey).mono
        fun r w4 h4 h => Told.none hΓ ((h03.within hΓ).trans hΓ h4) h.1 ?_
      rw [TransferResult.notices, h.2, Bool.not_true, Bool.and_false]
      rfl
  | none =>
      refine (body_roomTransferNew hA hpayload (howner.keeps (hA.keeps h13.toNear))
        (h3.held hlock) (h03.pend.trans hpend) ?_).mono fun _ _ _ h =>
          h.after hΓ (h03.within hΓ)
      rw [h03.frames]
      exact hopen

/-! ## Whole calls -/

/-- What a call commits under the locks it holds, when it returns `r`. -/
def TransferStep (p : Platform) (c : Call) (r : TransferResult) (held : List Lock)
    (s s' : Store) : Prop :=
  ∃ g : Store → Store, CallEnd p c r held s g ∧ s' = g s

/-- How a call leaves its session: with one commit behind a result, and with none
    behind an error. -/
def CallPost (p : Platform) (c : Call) (before : List (Store × Store))
    (r : Except Exn TransferResult) (w' : World Store Lock Obs) : Prop :=
  Idle w' ∧ match r with
  | .ok r => ∃ held s s', TransferStep p c r held s s' ∧
      commitsOf w'.sess.hist = (s, s') :: before
  | .error _ => commitsOf w'.sess.hist = before

/-- The commit of a call is among what the session guarantees. -/
def Commits (p : Platform) (c : Call) (Γ : Ctx Store Lock Exn Obs) : Prop :=
  ∀ r held s s', Γ.leave held s s' → TransferStep p c r held s s' → Γ.guar held s s'

theorem wp_callTransaction (hA : Abides p Γ) {c : Call} (hcommit : Commits p c Γ)
    {m : M TransferResult} (hi : Idle w)
    (hm : ∀ w', Env Γ w w' → Body Γ m w'.begin
      (fun r w1 => CallEnd p c r w1.sess.held w1.db w1.sess.pend) anyError) :
    wp Γ (atomic m) (CallPost p c (commitsOf w.sess.hist)) w := by
  refine wp_transaction hA.lawful hi hm anyError_faults ?_ ?_
  · intro e w3 _ hidle hcommits _
    exact ⟨hidle, hcommits⟩
  · intro w' r w1 w2 he hw h he2 hleave
    refine ⟨fun _ => ?_, fun _ _ => trivial⟩
    have hend : CallEnd p c r w2.sess.held w2.db w2.sess.pend := by
      have hpend : w2.sess.pend = w1.sess.pend := by rw [he2.sess]
      rw [hpend]
      exact h.near hA he2.still.toNear
    have hstep : TransferStep p c r w2.sess.held w2.db w2.view := ⟨_, hend, rfl⟩
    refine ⟨hcommit r _ _ _ hleave hstep, publish_idle _, _, _, _, hstep, ?_⟩
    show (w2.db, w2.view) :: commitsOf w2.sess.hist = _
    rw [he2.sess, hw.commits, World.begin_hist, he.sess]

/-- **RETRIES**: every attempt starts where the call started, and a call whose attempts
    all fail leaves what the last one left. -/
theorem wp_attempts {α : Type} {once : M α} {J : World Store Lock Obs → Prop}
    {Q : Except Exn α → World Store Lock Obs → Prop}
    (honce : ∀ {w : World Store Lock Obs}, J w → wp Γ once Q w)
    (hretry : ∀ e w, Q (.error e) w → J w) (herr : ∀ e e' w, Q (.error e) w → Q (.error e') w)
    (left : Nat) : ∀ {w : World Store Lock Obs}, J w → wp Γ (attempts once left) Q w := by
  induction left with
  | zero =>
      intro w hi
      refine wp_tryCatch (wp_mono ?_ (honce hi))
      rintro (e | r) w1 h
      · show wp Γ _ _ w1
        cases e with
        | operationalError sqlstate =>
            dsimp only
            cases retryable sqlstate <;> exact herr _ _ _ h
        | _ => exact h
      · exact h
  | succ left ih =>
      intro w hi
      refine wp_tryCatch (wp_mono ?_ (honce hi))
      rintro (e | r) w1 h
      · show wp Γ _ _ w1
        cases e with
        | operationalError sqlstate =>
            dsimp only
            cases retryable sqlstate with
            | false => exact h
            | true => exact ih (hretry _ _ h)
        | _ => exact h
      · exact h

/-- **SPECIFICATION** of `transfer`. -/
theorem wp_transfer (hA : Abides p Γ) {c : Call} (hcommit : Commits p c Γ)
    {name : String} (hpayload : c.payload = canonicalPayload name c.amount)
    (hi : Idle w) :
    wp Γ (transfer p c.user name c.amount c.key none)
      (CallPost p c (commitsOf w.sess.hist)) w := by
  refine wp_attempts (J := fun w' => Idle w' ∧ commitsOf w'.sess.hist = commitsOf w.sess.hist)
    (fun {w'} hw => ?_) (fun _ _ h => h) (fun _ _ _ h => h) 3 ⟨hi, rfl⟩
  rw [← hw.2]
  refine wp_callTransaction hA hcommit hw.1 fun w1 he => ?_
  have hfull : payloadOf name c.amount none = c.payload := hpayload.symm
  refine (body_executeOnceBody hA hfull ?_ Named.any).mono fun r w2 _ h =>
    CallEnd.of_exec h.ended
  rw [World.begin_pend, he.sess]
  exact hw.1.pend

/-- **SPECIFICATION** of `transfer_for_product_room`. -/
theorem wp_transferForProductRoom (hA : Abides p Γ) {c : Call}
    (hcommit : Commits p c Γ) {room : Nat}
    (hpayload : c.payload = canonicalRoomPayload room c.amount) (hi : Idle w) :
    wp Γ (transferForProductRoom p c.user room c.amount c.key)
      (CallPost p c (commitsOf w.sess.hist)) w := by
  refine wp_callTransaction hA hcommit hi fun w' he => ?_
  refine (body_transferForProductRoom hA hpayload ?_ ?_).mono fun _ _ _ h => h.callEnd hA
  · rw [World.begin_pend, he.sess]
    exact hi.pend
  · rw [World.begin_frames]
    exact List.cons_ne_nil _ _

end Market
