import Marketplace.LedgerInvariant
import Marketplace.TxnInvariants
import Marketplace.TxnSchedule

/-! # A transfer is all or nothing

    What one call of `transfer` or `transfer_for_product_room` with a new key makes of
    the store, when any of its statements may fail: the whole payment, one stored
    denial, or nothing.  Retries start in a store that nothing was written to, and the
    notifications of a room are in the transaction of its payment. -/

namespace Market

open TxnProgram TxnInterleaving TxnLogic TxnProtection TxnSoundness TxnBody TxnInvariants
  TxnSchedule

variable {p : Platform} {Γ : Ctx Store Lock Exn Obs} {w w' : World Store Lock Obs}
  {s s' : Store}

/-! ## What is asked, and what may come of it -/

/-- A call of one of the two services. -/
inductive PaymentCall where
  | transfer (user : Nat) (recipientName : String) (amount : Money) (key : Uuid)
  | transferForProductRoom (user room : Nat) (amount : Money) (key : Uuid)

def PaymentCall.run (p : Platform) : PaymentCall → M TransferResult
  | .transfer user recipientName amount key =>
      Market.transfer p user recipientName amount key none
  | .transferForProductRoom user room amount key =>
      Market.transferForProductRoom p user room amount key

/-- Who calls, for how much, with which key, and the payload stored under it. -/
def PaymentCall.call : PaymentCall → Call
  | .transfer user recipientName amount key =>
      ⟨user, amount, key, canonicalPayload recipientName amount⟩
  | .transferForProductRoom user room amount key =>
      ⟨user, amount, key, canonicalRoomPayload room amount⟩

/-- The user is the other party of the conversation. -/
def ProductConversation.HasParties (x : ProductConversation) (user other : Nat) : Prop :=
  (x.seller = user ∧ x.buyer = other) ∨ (x.buyer = user ∧ x.seller = other)

/-- The user that the call pays: the one of the name, or the counterparty in the
    conversation of the product room. -/
def PaymentCall.Pays (c : PaymentCall) (s : Store) (recipient : Nat) : Prop :=
  match c with
  | .transfer _ name _ _ => ∃ u ∈ s.users, u.username = name ∧ u.pk = recipient
  | .transferForProductRoom user room _ _ =>
      (∃ r ∈ s.rooms, r.pk = room ∧ r.kind = .product) ∧
        ∃ x ∈ s.conversations, x.room = room ∧ x.HasParties user recipient

/-- The notifications a payment brings: none, or one for each party in a room. -/
def PaymentCall.Tells (c : PaymentCall) (recipient : Nat) (t : Uuid)
    (notes : List Notification) : Prop :=
  match c with
  | .transfer _ _ _ _ => notes = []
  | .transferForProductRoom user _ _ _ => ∃ sent received : Notification,
      notes = [sent, received] ∧
      sent.recipient = user ∧ sent.kind = "TRANSFER_SENT" ∧ sent.eventKey = senderEventKey t ∧
      received.recipient = recipient ∧ received.kind = "TRANSFER_RECEIVED" ∧
      received.eventKey = recipientEventKey t

/-- The rows of a payment. -/
structure Payment where
  sender : MockAccount
  recipient : MockAccount
  debit : LedgerAccount
  credit : LedgerAccount
  journal : Uuid
  transfer : Uuid
  request : Nat
  notes : List Notification

/-- An account after a payment. -/
def Payment.balanced (x : Payment) (amount : Money) (a : MockAccount) : MockAccount :=
  if a.pk = x.recipient.pk then { a with balance := a.balance + amount }
  else if a.pk = x.sender.pk then { a with balance := a.balance - amount }
  else a

/-- The two entries of a payment. -/
def Payment.entries (x : Payment) (amount : Money) : List LedgerEntry :=
  [{ journal := x.journal, account := x.debit.pk, amount := -amount },
   { journal := x.journal, account := x.credit.pk, amount := amount }]

/-- The store after a payment: what is added and changed, and nothing else. -/
def Payment.after (x : Payment) (c : Call) (r : TransferResult) (s : Store) : Store :=
  { s with
    accounts := s.accounts.map (x.balanced c.amount)
    journals := s.journals ++ [{ pk := x.journal, kind := .transfer }]
    entries := s.entries ++ x.entries c.amount
    transfers := s.transfers ++
      [{ pk := x.transfer, sender := x.sender.pk, recipient := x.recipient.pk,
         journal := x.journal, amount := c.amount }]
    requests := s.requests ++
      [{ pk := x.request, sender := x.sender.pk, idempotencyKey := c.key,
         canonicalPayload := c.payload, responseStatus := r.status, responseBody := r.body,
         transfer := some x.transfer }]
    transferAudits := s.transferAudits ++
      [{ actor := c.user, eventType := "TRANSFER_COMPLETED", transfer := some x.transfer }]
    notifications := s.notifications ++ x.notes }

/-- **SUCCESS**: the payment `x` was made, all of it. -/
structure Paid (c : PaymentCall) (r : TransferResult) (s s' : Store) (x : Payment) : Prop where
  status : r.status = 201
  fresh : r.replayed = false
  after : s' = x.after c.call r s
  sender : x.sender ∈ s.accounts ∧ x.sender.user = c.call.user
  recipient : x.recipient ∈ s.accounts ∧ c.Pays s x.recipient.user
  distinct : x.sender.pk ≠ x.recipient.pk
  debit : x.debit ∈ s.ledgerAccounts ∧ x.debit.mockAccount = some x.sender.pk
  credit : x.credit ∈ s.ledgerAccounts ∧ x.credit.mockAccount = some x.recipient.pk
  journal : (∀ j ∈ s.journals, j.pk ≠ x.journal) ∧
    s'.entries.filter (·.journal == x.journal) = x.entries c.call.amount
  transfer : (∀ t ∈ s.transfers, t.pk ≠ x.transfer) ∧ x.transfer < 2 ^ 128
  told : c.Tells x.recipient.user x.transfer x.notes

/-- **DENIAL**: one request was stored, and nothing else. -/
def Denied (c : PaymentCall) (r : TransferResult) (s s' : Store) : Prop :=
  r = { status := 422, body := .error "TRANSFER_NOT_ALLOWED" } ∧
    ∃ a ∈ s.accounts, a.user = c.call.user ∧ ∃ n, s' = { s with
      requests := s.requests ++
        [{ pk := n, sender := a.pk, idempotencyKey := c.call.key,
           canonicalPayload := c.call.payload, responseStatus := 422,
           responseBody := .error "TRANSFER_NOT_ALLOWED", transfer := none }] }

/-- What a call that returns has done. -/
def Outcome (c : PaymentCall) (r : TransferResult) (s s' : Store) : Prop :=
  (∃ x, Paid c r s s' x) ∨ Denied c r s s'

/-- Keys are unique, and the notifications of transfers are of transfers that are
    recorded. -/
structure Recorded (s : Store) : Prop where
  accounts : (s.accounts.map (·.pk)).Nodup
  usernames : (s.users.map (·.username)).Nodup
  notices : ∀ n ∈ s.notifications, ∀ t < 2 ^ 128,
    n.eventKey = senderEventKey t ∨ n.eventKey = recipientEventKey t →
    ∃ x ∈ s.transfers, x.pk = t

/-- No request of the sender is stored under the key. -/
def NewKey (c : Call) (s : Store) : Prop :=
  ∀ q ∈ s.requests, SendsFrom c.user q.sender s → q.idempotencyKey ≠ c.key

/-! ## From the specifications to the outcomes -/

/-- The account of a user is the one it sends from. -/
theorem SendsFrom.user {user : Nat} {a : MockAccount} (h : SendsFrom user a.pk s)
    (hkeys : (s.accounts.map (·.pk)).Nodup) (ha : a ∈ s.accounts) : a.user = user := by
  obtain ⟨b, hb, hid⟩ := List.mem_map.mp h.mem
  rw [eq_of_key hkeys ha hb (congrArg Prod.fst hid).symm]
  exact congrArg Prod.snd hid

/-- The rows of a movement, with its notifications. -/
def Movement.payment (m : Movement) (notes : List Notification) : Payment where
  sender := m.sender
  recipient := m.recipient
  debit := m.debit
  credit := m.credit
  journal := m.journal
  transfer := m.transfer
  request := m.request.pk
  notes := notes

/-- Everything that a movement writes. -/
theorem Movement.apply_eq (m : Movement) (s : Store) : m.apply s =
    { s with
      accounts := (m.apply s).accounts
      journals := s.journals ++ [{ pk := m.journal, kind := .transfer }]
      entries := s.entries ++ m.entries
      transfers := s.transfers ++
        [{ pk := m.transfer, sender := m.sender.pk, recipient := m.recipient.pk,
           journal := m.journal, amount := m.amount }]
      requests := s.requests ++ [m.request]
      transferAudits := s.transferAudits ++
        [{ actor := m.actor, eventType := "TRANSFER_COMPLETED",
           transfer := some m.transfer }] } := by
  simp only [Movement.apply, addTransferAudit, addRequest, addTransfer, addEntries,
    addJournal, setBalance, updateAccount, Movement.entries]

/-- On the rows of the store, a movement is a payment. -/
theorem Movement.rebalance_eq {m : Movement} (notes : List Notification)
    (hkeys : (s.accounts.map (·.pk)).Nodup) (hsender : m.sender ∈ s.accounts)
    (hrecipient : m.recipient ∈ s.accounts) :
    s.accounts.map m.rebalance = s.accounts.map ((m.payment notes).balanced m.amount) := by
  refine List.map_congr_left fun a ha => ?_
  rw [Movement.rebalance, Payment.balanced]
  show _ = if a.pk = m.recipient.pk then _ else if a.pk = m.sender.pk then _ else a
  by_cases hr : a.pk = m.recipient.pk
  · rw [if_pos hr, if_pos hr, eq_of_key hkeys ha hrecipient hr]
  · rw [if_neg hr, if_neg hr]
    by_cases hs : a.pk = m.sender.pk
    · rw [if_pos hs, if_pos hs, eq_of_key hkeys ha hsender hs]
    · rw [if_neg hs, if_neg hs]

/-- At `COMMIT` the new journal has its two entries and no other. -/
theorem entries_of_validated {j : LedgerJournal} {a b : LedgerEntry}
    (hdeferred : validateBalancedJournal s s' = none)
    (hjournals : s'.journals = s.journals ++ [j]) (hentries : s'.entries = s.entries ++ [a, b])
    (ha : a.journal = j.pk) (hb : b.journal = j.pk) :
    s'.entries.filter (·.journal == j.pk) = [a, b] := by
  have hchecked : (s'.entries.filter (·.journal == j.pk)).length = 2 := by
    rw [validateBalancedJournal] at hdeferred
    have hall := of_not_not fun hne => absurd hdeferred (by rw [if_neg hne]; exact nofun)
    rw [List.all_eq_true] at hall
    have hj := hall j.pk (List.mem_append_left _ (by
      rw [hjournals, List.drop_left]
      exact List.mem_singleton_self _))
    rw [Bool.and_eq_true, beq_iff_eq] at hj
    exact hj.1
  have hlast : [a, b].filter (·.journal == j.pk) = [a, b] := by
    rw [List.filter_eq_self]
    intro e he
    rcases List.mem_pair.mp he with rfl | rfl
    · exact beq_iff_eq.mpr ha
    · exact beq_iff_eq.mpr hb
  rw [hentries, List.filter_append, hlast] at hchecked ⊢
  rw [List.length_append] at hchecked
  have hnone : s.entries.filter (·.journal == j.pk) = [] :=
    List.length_eq_zero_iff.mp (Nat.add_right_cancel (m := 2) hchecked)
  rw [hnone, List.nil_append]

/-- The account is one of a user in `U`. -/
def AccountOf (U : Nat → Prop) (s : Store) (n : Nat) : Prop :=
  ∃ a ∈ s.accounts, a.pk = n ∧ U a.user

/-- **OUTCOME**: how a call ends inside its transaction, and what it commits. -/
theorem Executed.outcome {c : PaymentCall} {r : TransferResult} {notes : List Notification}
    {U : Nat → Prop} (h : Executed p c.call (AccountOf U w.db) r w) (hi : Recorded w.db)
    (hnew : NewKey c.call w.db) (hpays : ∀ u, U u → c.Pays w.db u)
    (htold : ∀ t u name balance, r.notices = 2 →
      r.body = completedBody t name c.call.amount balance → t < 2 ^ 128 →
      (∀ x ∈ w.db.transfers, x.pk ≠ t) → U u → c.Tells u t notes)
    (hsilent : r.notices = 0 → notes = [])
    (hdeferred : validateBalancedJournal w.db (addNotifications notes w.view) = none) :
    Outcome c r w.db (addNotifications notes w.view) := by
  have hview : w.view = w.sess.pend w.db := rfl
  have hended := h.ended
  rw [hview] at hdeferred ⊢
  generalize hf : w.sess.pend = f at hended hdeferred ⊢
  cases hended with
  | replayed hr =>
      obtain ⟨q, hq, howner, hkey, -⟩ := h.replayed hr
      exact absurd hkey (hnew q hq howner)
  | denied q hq hd hr =>
      refine Or.inr ⟨?_, ?_⟩
      · rw [hr, hd.status, hd.body]
      · obtain ⟨a, ha, hid⟩ := List.mem_map.mp hq.owner.mem
        refine ⟨a, ha, congrArg Prod.snd hid, q.pk, ?_⟩
        have hnone : notes = [] := hsilent (by rw [hr, hd.status]; rfl)
        have hpk : a.pk = q.sender := congrArg Prod.fst hid
        rw [hnone, addNotifications_nil, hpk, ← hq.key, ← hq.payload, ← hd.status, ← hd.body,
          ← hd.transfer]
        rfl
  -- the notices come after the writes of the payment, and change nothing of them
  | moved m hm hr =>
      have hfresh : ∀ t ∈ w.db.transfers, t.pk ≠ m.transfer := key_ne hm.transferFree
      have happly := m.apply_eq w.db
      obtain ⟨hto, hactor⟩ : (AccountOf U w.db m.recipient.pk ∧ m.transfer < 2 ^ 128) ∧
          m.actor = c.call.user := by
        obtain ⟨rows, hrows, hto⟩ := h.adds.transfers w.db
        obtain ⟨audits, haudits, hactor⟩ := h.adds.audits w.db
        rw [hf, happly] at hrows haudits
        rw [← List.append_cancel_left hrows] at hto
        rw [← List.append_cancel_left haudits] at hactor
        exact ⟨hto _ (List.mem_singleton_self _), hactor _ (List.mem_singleton_self _)⟩
      obtain ⟨⟨a, ha, hapk, hU⟩, hbits⟩ := hto
      rw [eq_of_key hi.accounts ha hm.recipientRow hapk] at hU
      have hne := hm.toMoveAllowed.ne hi.accounts
      obtain ⟨-, hjournals, hentries⟩ := m.apply_ledger w.db
      have hnotices : r.notices = 2 := by rw [hr, TransferResult.notices, hm.status]; rfl
      refine Or.inl ⟨m.payment notes, ?_⟩
      exact {
        status := by rw [hr]; exact hm.status
        fresh := by rw [hr]
        after := by
          have haccounts := (Movement.apply_accounts (s := w.db) hne).trans
            (Movement.rebalance_eq notes hi.accounts hm.senderRow hm.recipientRow)
          have hrequest : m.request =
              { pk := m.request.pk, sender := m.sender.pk, idempotencyKey := c.call.key,
                canonicalPayload := c.call.payload, responseStatus := r.status,
                responseBody := r.body, transfer := some m.transfer } := by
            rw [hr, ← hm.request.key, ← hm.request.payload, ← hm.requestSender, ← hm.transfer]
          rw [happly, haccounts, hactor, Movement.entries, hm.amount]
          rw [hrequest]
          rfl
        sender := ⟨hm.senderRow, hm.owner.user hi.accounts hm.senderRow⟩
        recipient := ⟨hm.recipientRow, hpays _ hU⟩
        distinct := hne
        debit := ⟨hm.debit, hm.debitOf⟩
        credit := ⟨hm.credit, hm.creditOf⟩
        journal := by
          refine ⟨key_ne hm.journalFree, ?_⟩
          rw [← hm.amount]
          exact entries_of_validated (j := { pk := m.journal, kind := .transfer })
            hdeferred hjournals hentries rfl rfl
        transfer := ⟨hfresh, hbits⟩
        told := by
          obtain ⟨name, hbody⟩ := hm.body
          refine htold m.transfer _ name (m.sender.balance - m.amount) hnotices ?_ hbits hfresh hU
          rw [hr, ← hm.amount]
          exact hbody }

/-! ## Notifications are of recorded transfers -/

theorem hexDigits_length (width n : Nat) : (hexDigits width n).length = width := by
  induction width generalizing n with
  | zero => rfl
  | succ width ih => rw [hexDigits, List.length_append, ih, List.length_singleton]

/-- The digits of a number that has no more of them. -/
theorem hexDigits_inj {width m n : Nat} (hm : m < 16 ^ width) (hn : n < 16 ^ width)
    (h : hexDigits width m = hexDigits width n) : m = n := by
  induction width generalizing m n with
  | zero => omega
  | succ width ih =>
      have hdigit : ∀ a < 16, ∀ b < 16, Nat.digitChar a = Nat.digitChar b → a = b := by decide
      rw [hexDigits, hexDigits] at h
      obtain ⟨hhigh, hlow⟩ := List.append_inj h (by rw [hexDigits_length, hexDigits_length])
      rw [Nat.pow_succ] at hm hn
      have hdiv : m / 16 = n / 16 := ih (by omega) (by omega) hhigh
      have hmod : m % 16 = n % 16 := hdigit _ (Nat.mod_lt _ (by omega)) _
        (Nat.mod_lt _ (by omega)) (List.cons.inj hlow).1
      omega

/-- The text of an identifier of 128 bits tells it from the others. -/
theorem uuidStr_inj {t t' : Uuid} (ht : t < 2 ^ 128) (ht' : t' < 2 ^ 128)
    (h : uuidStr t = uuidStr t') : t = t' := by
  have hpow : (16 : Nat) ^ 32 = 2 ^ 128 := by decide
  refine hexDigits_inj (by rw [hpow]; exact ht) (by rw [hpow]; exact ht') ?_
  have hlist : (uuidStr t).toList = (uuidStr t').toList := congrArg String.toList h
  rw [uuidStr, uuidStr, String.toList_ofList, String.toList_ofList] at hlist
  have hl := hexDigits_length 32 t
  have hl' := hexDigits_length 32 t'
  generalize hexDigits 32 t = d at hlist hl ⊢
  generalize hexDigits 32 t' = d' at hlist hl' ⊢
  -- the groups have the same lengths, so they agree one by one
  obtain ⟨h4, h5⟩ := List.append_inj hlist (by simp [hl, hl'])
  obtain ⟨h3, h4⟩ := List.append_inj h4 (by simp [hl, hl'])
  obtain ⟨h2, h3⟩ := List.append_inj h3 (by simp [hl, hl'])
  obtain ⟨h1, h2⟩ := List.append_inj h2 (by simp [hl, hl'])
  have split : ∀ l : List Char, l = l.take 8 ++ ((l.drop 8).take 4 ++ ((l.drop 12).take 4 ++
      ((l.drop 16).take 4 ++ l.drop 20))) := by
    intro l
    have h20 : l.drop 20 = (l.drop 16).drop 4 := by rw [List.drop_drop]
    have h16 : l.drop 16 = (l.drop 12).drop 4 := by rw [List.drop_drop]
    have h12 : l.drop 12 = (l.drop 8).drop 4 := by rw [List.drop_drop]
    rw [h20, List.take_append_drop, h16, List.take_append_drop, h12, List.take_append_drop,
      List.take_append_drop]
  rw [split d, split d', h1, (List.cons.inj h2).2, (List.cons.inj h3).2, (List.cons.inj h4).2,
    (List.cons.inj h5).2]

theorem eventKeys_ne (t t' : Uuid) : recipientEventKey t ≠ senderEventKey t' := by
  intro h
  have hlist := congrArg String.toList h
  rw [recipientEventKey, senderEventKey, String.toList_append, String.toList_append] at hlist
  have hhead := congrArg (fun l => (l.drop 9).head?) hlist
  exact absurd hhead (by simp)

/-- A key of one identifier is the key of no other. -/
theorem eventKey_inj {key : String} {t t' : Uuid} (ht : t < 2 ^ 128) (ht' : t' < 2 ^ 128)
    (h : key = senderEventKey t ∨ key = recipientEventKey t)
    (h' : key = senderEventKey t' ∨ key = recipientEventKey t') : t = t' := by
  rcases h with h | h
  · rcases h' with h' | h'
    · have hkeys := h.symm.trans h'
      rw [senderEventKey, senderEventKey, String.append_right_inj] at hkeys
      exact uuidStr_inj ht ht' hkeys
    · exact absurd (h'.symm.trans h) (eventKeys_ne t' t)
  · rcases h' with h' | h'
    · exact absurd (h.symm.trans h') (eventKeys_ne t t')
    · have hkeys := h.symm.trans h'
      rw [recipientEventKey, recipientEventKey, String.append_right_inj] at hkeys
      exact uuidStr_inj ht ht' hkeys

/-- **STEP**: after a call notifications are still of recorded transfers, so that the
    next call starts like this one. -/
theorem Outcome.recorded {c : PaymentCall} {r : TransferResult} (h : Outcome c r s s')
    (hi : Recorded s) : Recorded s' := by
  rcases h with ⟨x, hx⟩ | ⟨-, a, -, -, n, rfl⟩
  · refine ⟨?_, ?_, ?_⟩
    · rw [hx.after]
      show ((s.accounts.map (x.balanced c.call.amount)).map (·.pk)).Nodup
      rw [List.map_map]
      have hpk : s.accounts.map ((·.pk) ∘ x.balanced c.call.amount) = s.accounts.map (·.pk) := by
        refine List.map_congr_left fun a _ => ?_
        rw [Function.comp_apply, Payment.balanced]
        split
        · rfl
        · split <;> rfl
      rw [hpk]
      exact hi.accounts
    · rw [hx.after]
      exact hi.usernames
    · intro n hn t ht hkey
      have hnotes : n ∈ s.notifications ∨ n ∈ x.notes := by
        rw [hx.after] at hn
        exact List.mem_append.mp hn
      have hrow : ∀ y ∈ s.transfers, y ∈ s'.transfers := fun y hy => by
        rw [hx.after]
        exact List.mem_append_left _ hy
      rcases hnotes with hn | hn
      · obtain ⟨y, hy, hpk⟩ := hi.notices n hn t ht hkey
        exact ⟨y, hrow y hy, hpk⟩
      · -- a notification of this payment has the key of this payment
        have hthis : n.eventKey = senderEventKey x.transfer ∨
            n.eventKey = recipientEventKey x.transfer := by
          have htold := hx.told
          cases c with
          | transfer user name amount key =>
              have hnil : x.notes = [] := htold
              rw [hnil] at hn
              exact nomatch hn
          | transferForProductRoom user room amount key =>
              obtain ⟨sent, received, hboth, -, -, hsent, -, -, hreceived⟩ := htold
              rw [hboth] at hn
              rcases List.mem_pair.mp hn with rfl | rfl
              · exact Or.inl hsent
              · exact Or.inr hreceived
        rw [eventKey_inj ht hx.transfer.2 hkey hthis, hx.after]
        exact ⟨_, List.mem_append_right _ (List.mem_singleton_self _), rfl⟩
  · exact ⟨hi.accounts, hi.usernames, hi.notices⟩

/-! ## A call alone -/

/-- The context of a call that has the database to itself, and commits once. -/
def lone (c : PaymentCall) (s : Store) : Ctx Store Lock Exn Obs :=
  alone (postgres fun _ _ => False) fun d d' => d = s ∧ ∃ r, Outcome c r s d'

theorem lone_abides (p : Platform) (c : PaymentCall) (s : Store) : Abides p (lone c s) where
  lawful := alone_lawful _ _
  rely held d d' h := by
    have hd : d' = d := h
    rw [hd]
    exact ⟨Keeps.refl d, fun l _ => (marketDiscipline_lawful p).same_refl l d⟩
  leave _ _ _ _ := trivial
  deferred := rfl

/-- How the call leaves its session and the store. -/
def LonePost (c : PaymentCall) (s : Store) (r : Except Exn TransferResult)
    (w : World Store Lock Obs) : Prop :=
  Idle w ∧ match r with
  | .ok r => Outcome c r s w.db
  | .error _ => w.db = s

/-- What a body ends with, if the trigger lets it be committed. -/
def Finished (c : PaymentCall) (r : TransferResult) (w : World Store Lock Obs) : Prop :=
  validateBalancedJournal w.db w.view = none → Outcome c r w.db w.view

/-- **TRANSACTION**: an error has changed nothing. -/
theorem wp_lone {c : PaymentCall} {m : M TransferResult} (hi : Idle w) (hs : w.db = s)
    (hbody : ∀ w1, w1.sess.pend = id → w1.sess.frames ≠ [] → w1.db = s →
      Body (lone c s) m w1 (Finished c) anyError) :
    wp (lone c s) (atomic m) (LonePost c s) w := by
  refine wp_transaction (P := fun _ => Finished c) (F := anyError) (alone_lawful _ _) hi
    (fun w' he => ?_) anyError_faults (fun e w3 _ hidle _ hdb => ⟨hidle, Eq.trans hdb hs⟩) ?_
  · refine hbody _ ?_ ?_ (Eq.trans he.db hs)
    · rw [World.begin_pend, he.sess]
      exact hi.pend
    · rw [World.begin_frames]
      exact List.cons_ne_nil _ _
  · intro w' r w1 w2 he hw hfinished he2 _
    refine ⟨fun hdeferred => ?_, fun _ _ => trivial⟩
    have hsame : w2.view = w1.view ∧ w2.db = w1.db := by
      have hdb : w2.db = w1.db := he2.db
      rw [World.view, World.view, he2.sess, hdb]
      exact ⟨rfl, rfl⟩
    have hdb : w1.db = s := by
      have hbegin : w1.db = w'.begin.db := hw.db
      have henv : w'.db = w.db := he.db
      rw [hbegin, World.begin_db, henv, hs]
    have hd : validateBalancedJournal w2.db w2.view = none := hdeferred
    rw [hsame.1, hsame.2] at hd
    have hout : Outcome c r s w2.view := by
      rw [hsame.1, ← hdb]
      exact hfinished hd
    exact ⟨⟨hsame.2.trans hdb, r, hout⟩, publish_idle _, hout⟩

/-- Nobody else is there to rename or to open accounts. -/
theorem named_lone {c : PaymentCall} {d : Store} {name : String} {U : Nat → Prop}
    (h : ∀ u ∈ s.users, u.username = name → U u.pk) :
    Named (lone c d) name (AccountOf U s) s := by
  intro s1 s2 u a h1 h2 hu ha
  have hs1 : s1 = s := h1
  have hs2 : s2 = s1 := h2
  rw [hs2, hs1] at ha
  rw [hs1] at hu
  have hname := List.find?_some hu
  have huser := List.find?_some ha
  rw [beq_iff_eq] at hname huser
  refine ⟨a, List.mem_of_find?_eq_some ha, rfl, ?_⟩
  rw [huser]
  exact h u (List.mem_of_find?_eq_some hu) hname

/-- **SPECIFICATION** of `transfer`, alone. -/
theorem wp_transfer_lone (user : Nat) (name : String) (amount : Money) (key : Uuid)
    (hi : Recorded s) (hnew : NewKey (PaymentCall.transfer user name amount key).call s)
    (hidle : Idle w) (hdb : w.db = s) :
    wp (lone (.transfer user name amount key) s) (transfer p user name amount key none)
      (LonePost (.transfer user name amount key) s) w := by
  refine wp_attempts (J := fun w' => Idle w' ∧ w'.db = s) (fun {w'} hw => ?_)
    (fun _ _ h => h) (fun _ _ _ h => h) 3 ⟨hidle, hdb⟩
  refine wp_lone hw.1 hw.2 fun w1 hpend _ hdb1 => ?_
  refine (body_executeOnceBody (lone_abides p _ s) (c := PaymentCall.call (.transfer user name
    amount key)) (T := AccountOf (PaymentCall.Pays (.transfer user name amount key) s) s)
    rfl hpend ?_).mono fun r w2 hw2 h hdeferred => ?_
  · rw [hdb1]
    exact named_lone fun u hu hname => ⟨u, hu, hname, rfl⟩
  · have hdb2 : w2.db = s := Eq.trans hw2.db hdb1
    rw [← hdb2] at h hi hnew
    have hnil : addNotifications [] w2.view = w2.view := addNotifications_nil _
    rw [← hnil] at hdeferred ⊢
    exact h.outcome hi hnew (fun _ hu => hu) (fun _ _ _ _ _ _ _ _ _ => rfl) (fun _ => rfl)
      hdeferred

/-! ## A call from a room, alone -/

/-- The rows of the conversation of a room. -/
theorem joinConversation_rows {room : Nat} {x : ProductConversation} {r : Room}
    {seller buyer : User} (h : joinConversation room s = some (x, r, seller, buyer)) :
    x ∈ s.conversations ∧ x.room = room ∧ r ∈ s.rooms ∧ r.pk = x.room ∧
      seller ∈ s.users ∧ seller.pk = x.seller ∧ buyer ∈ s.users ∧ buyer.pk = x.buyer := by
  obtain ⟨x', hx, h⟩ := Option.bind_eq_some_iff.mp h
  obtain ⟨r', hr, h⟩ := Option.bind_eq_some_iff.mp h
  obtain ⟨seller', hseller, h⟩ := Option.bind_eq_some_iff.mp h
  obtain ⟨buyer', hbuyer, h⟩ := Option.bind_eq_some_iff.mp h
  cases h
  have hroom := List.find?_some hx
  have hrpk := List.find?_some hr
  have hsellerPk := List.find?_some hseller
  have hbuyerPk := List.find?_some hbuyer
  rw [beq_iff_eq] at hroom hrpk hsellerPk hbuyerPk
  exact ⟨List.mem_of_find?_eq_some hx, hroom, List.mem_of_find?_eq_some hr, hrpk,
    List.mem_of_find?_eq_some hseller, hsellerPk, List.mem_of_find?_eq_some hbuyer, hbuyerPk⟩

/-- The counterparty is the other party's row. -/
theorem counterparty_party {user : Nat} {x : ProductConversation} {seller buyer u : User}
    (h : counterparty user x seller buyer = some u) :
    (u = buyer ∧ x.seller = user) ∨ (u = seller ∧ x.buyer = user) := by
  rw [counterparty] at h
  split at h
  · rename_i hseller
    exact Or.inl ⟨(Option.some.inj h).symm, (beq_iff_eq.mp hseller).symm⟩
  · split at h
    · rename_i hbuyer
      exact Or.inr ⟨(Option.some.inj h).symm, (beq_iff_eq.mp hbuyer).symm⟩
    · exact nomatch h

/-- Whatever a call executes, it leaves the notifications to its caller. -/
theorem ExecEnd.notifications {c : Call} {r : TransferResult} {held : List Lock}
    {f : Store → Store} (h : ExecEnd p c r held s f) (s' : Store) :
    (f s').notifications = s'.notifications := by
  cases h with
  | replayed _ => rfl
  | denied _ _ _ _ => rfl
  | moved m _ _ => rw [m.apply_eq]

/-- **TOLD**: for a new transfer there is no notification yet, so both are added. -/
theorem BothNoticed.both {c : PaymentCall} {user recipient : Nat} {t : Uuid} {amount : Money}
    (h : BothNoticed (lone c s) user recipient t amount w w') (hi : Recorded w.db)
    (hpend : ∀ s, (w.sess.pend s).notifications = s.notifications) (hbits : t < 2 ^ 128)
    (hfresh : ∀ x ∈ w.db.transfers, x.pk ≠ t) :
    ∃ sent received : Notification,
      w'.sess.pend = (fun s => addNotifications [sent, received] (w.sess.pend s)) ∧
      sent.recipient = user ∧ sent.kind = "TRANSFER_SENT" ∧ sent.eventKey = senderEventKey t ∧
      received.recipient = recipient ∧ received.kind = "TRANSFER_RECEIVED" ∧
      received.eventKey = recipientEventKey t := by
  have hnone : ∀ n ∈ w.db.notifications,
      ¬ (n.eventKey = senderEventKey t ∨ n.eventKey = recipientEventKey t) := by
    intro n hn hkey
    obtain ⟨x, hx, hpk⟩ := hi.notices n hn t hbits hkey
    exact hfresh x hx hpk
  obtain ⟨names, w1, w2, h1, h2, hsent, hreceived⟩ := h
  have hdb1 : w1.db = w.db := h1.toNear.db
  have hdb2 : w2.db = w.db := Eq.trans h2.toNear.db hdb1
  cases hsent with
  | found n d hs _ hn _ hkey _ =>
      have hs' : d = w1.db := hs
      rw [hs', hdb1, h1.pend, hpend] at hn
      exact absurd (Or.inl hkey) (hnone n hn)
  | created sent _ hsender hkey hkind _ _ _ _ _ hp2 =>
      rw [h1.pend] at hp2
      cases hreceived with
      | found n d hs _ hn _ hkey' _ =>
          have hs' : d = w2.db := hs
          rw [hs', hdb2, hp2] at hn
          rcases List.mem_append.mp hn with hn | hn
          · rw [hpend] at hn
            exact absurd (Or.inr hkey') (hnone n hn)
          · rw [List.mem_singleton.mp hn, hkey] at hkey'
            exact absurd hkey'.symm (eventKeys_ne t t)
      | created received _ hrecipient hkey' hkind' _ _ _ _ _ hp3 =>
          refine ⟨sent, received, ?_, hsender, hkind, hkey, hrecipient, hkind', hkey'⟩
          rw [hp3, hp2]
          funext s
          exact addNotifications_append _ _ _

/-- What the notifications of a call are. -/
theorem Informed.notes {user room recipient : Nat} {amount : Money} {key : Uuid}
    {r : TransferResult}
    (h : Informed (lone (.transferForProductRoom user room amount key) s) user recipient amount
      r w w') (hi : Recorded w.db)
    (hpend : ∀ s, (w.sess.pend s).notifications = s.notifications) :
    ∃ notes, w'.sess.pend = (fun s => addNotifications notes (w.sess.pend s)) ∧
      (r.notices = 0 → notes = []) ∧
      ∀ t name balance, r.notices = 2 → r.body = completedBody t name amount balance →
        t < 2 ^ 128 → (∀ x ∈ w.db.transfers, x.pk ≠ t) →
        PaymentCall.Tells (.transferForProductRoom user room amount key) recipient t notes := by
  obtain ⟨notes, hlen, hp⟩ := h.notified
  by_cases hnew : r.notices = 2 ∧ ∃ t name balance, r.body = completedBody t name amount balance ∧
      t < 2 ^ 128 ∧ ∀ x ∈ w.db.transfers, x.pk ≠ t
  · obtain ⟨hnotices, t, name, balance, hbody, hbits, hfresh⟩ := hnew
    obtain ⟨sent, received, hp', hboth⟩ :=
      (h.told hnotices t _ name _ _ hbody).both hi hpend hbits hfresh
    refine ⟨[sent, received], hp', fun h0 => ?_, fun t' name' balance' _ hbody' _ _ => ?_⟩
    · rw [hnotices] at h0
      exact nomatch h0
    · have ht : t = t' := (ResponseBody.completed.inj (hbody.symm.trans hbody')).1
      rw [← ht]
      exact ⟨sent, received, rfl, hboth⟩
  · refine ⟨notes, hp, fun h0 => ?_, fun t name balance h2 hbody hbits hfresh => ?_⟩
    · rw [h0] at hlen
      exact List.length_eq_zero_iff.mp (Nat.le_zero.mp hlen)
    · exact absurd ⟨h2, t, name, balance, hbody, hbits, hfresh⟩ hnew

/-- **SPECIFICATION** of `transfer_for_product_room`, alone. -/
theorem body_roomTransfer_lone {user room : Nat} {amount : Money} {key : Uuid}
    (hi : Recorded s)
    (hnew : NewKey (PaymentCall.transferForProductRoom user room amount key).call s)
    (hpend : w.sess.pend = id) (hopen : w.sess.frames ≠ []) (hdb : w.db = s) :
    Body (lone (.transferForProductRoom user room amount key) s)
      (transferForProductRoomBody p user room amount key) w
      (Finished (.transferForProductRoom user room amount key)) anyError := by
  have hA := lone_abides p (.transferForProductRoom user room amount key) s
  have hΓ := hA.lawful
  -- a denial needs no notification
  have deny : ∀ (w1 : World Store Lock Obs) (a : MockAccount), w1.sess.pend = id → w1.db = s →
      SendsFrom user a.pk s → .advisory (p.idempotencyDigest a.pk key) false ∈ w1.sess.held →
      Body (lone (.transferForProductRoom user room amount key) s)
        (storeDenial a key (canonicalRoomPayload room amount)) w1
        (Finished (.transferForProductRoom user room amount key)) anyError := by
    intro w1 a hpend1 hdb1 howner hlock
    refine (body_storeDenial (c := PaymentCall.call (.transferForProductRoom user room amount
      key)) (T := AccountOf (fun _ => False) s) hA (by rw [hdb1]; exact howner) hlock
      hpend1).mono fun r w2 hw2 ⟨h, hstatus⟩ hdeferred => ?_
    have hdb2 : w2.db = s := Eq.trans hw2.db hdb1
    have hnotices : r.notices = 0 := by rw [TransferResult.notices, hstatus]; rfl
    have hnil : addNotifications [] w2.view = w2.view := addNotifications_nil _
    rw [← hdb2] at h hi hnew
    rw [← hnil] at hdeferred ⊢
    refine h.outcome hi hnew (fun _ hu => hu.elim) (fun _ _ _ _ h2 => ?_) (fun _ => rfl) hdeferred
    rw [hnotices] at h2
    cases h2
  refine Body.look hΓ (look_getRow hΓ anyError_faults _ _ trivial)
    fun sender w1 h1 hsender => ?_
  have hdb1 : w1.db = s := Eq.trans h1.toNear.db hdb
  rw [h1.view, hpend] at hsender
  have howner : SendsFrom user sender.pk s := by
    rw [← hdb1]
    exact sendsFrom_of_find hsender
  refine Body.look hΓ (Look.acquire anyError_faults _) fun _ w2 h2 hlock => ?_
  refine Body.look hΓ (look_firstForUpdate hΓ anyError_faults _ _ _ _)
    fun previous w3 h3 hprevious => ?_
  have h03 : Still (lone (.transferForProductRoom user room amount key) s) w w3 :=
    h1.trans hΓ (h2.trans hΓ h3)
  have hdb3 : w3.db = s := Eq.trans h03.toNear.db hdb
  have hpend3 : w3.sess.pend = id := h03.pend.trans hpend
  cases previous with
  | some previous =>
      obtain ⟨hstored, hsame, hkey⟩ := LockedFirst.request (c := PaymentCall.call
        (.transferForProductRoom user room amount key)) hprevious hpend3
        (by rw [hdb3]; exact howner)
      rw [hdb3] at hstored hsame
      exact absurd hkey (hnew previous hstored hsame)
  | none =>
      refine Body.look hΓ (look_findConversation hΓ room) fun found w4 h4 hfound => ?_
      have hdb4 : w4.db = s := Eq.trans h4.toNear.db hdb3
      have hpend4 : w4.sess.pend = id := h4.pend.trans hpend3
      have hlock4 := h4.held (h3.held hlock)
      cases found with
      | none => exact deny w4 sender hpend4 hdb4 howner hlock4
      | some row =>
          obtain ⟨x, chatRoom, seller, buyer⟩ := row
          have hjoin := hfound _ rfl
          rw [World.view, hpend4, hdb4] at hjoin
          obtain ⟨hx, hroom, hr, hrpk, hseller, hsellerPk, hbuyer, hbuyerPk⟩ :=
            joinConversation_rows hjoin
          dsimp only
          by_cases hkind : (chatRoom.kind != .product) = true
          · rw [if_pos hkind]
            exact deny w4 sender hpend4 hdb4 howner hlock4
          · rw [if_neg hkind]
            rw [bne_iff_ne, ne_eq, not_not] at hkind
            cases hparty : counterparty user x seller buyer with
            | none => exact deny w4 sender hpend4 hdb4 howner hlock4
            | some recipient =>
                -- the name leads to the row that was joined, since names are unique
                have hrow : recipient ∈ s.users ∧ x.HasParties user recipient.pk := by
                  rcases counterparty_party hparty with ⟨rfl, hu⟩ | ⟨rfl, hu⟩
                  · exact ⟨hbuyer, Or.inl ⟨hu, hbuyerPk.symm⟩⟩
                  · exact ⟨hseller, Or.inr ⟨hu, hsellerPk.symm⟩⟩
                refine Body.bind hΓ (body_attempts (T := AccountOf (· = recipient.pk) s)
                  (c := PaymentCall.call (.transferForProductRoom user room amount key)) hA
                  (payloadOf_room _ _ _) 3 hpend4 ?_ ?_) fun r w5 h5 hexec => ?_
                · rw [h4.frames, h03.frames]
                  exact hopen
                · rw [hdb4]
                  exact named_lone fun u hu hname =>
                    congrArg User.pk (eq_of_key hi.usernames hu hrow.1 hname)
                have hdb5 : w5.db = s := Eq.trans h5.db hdb4
                rw [← hdb5] at hi hnew hexec
                refine Body.bind hΓ (body_notifyTransfer hA user recipient amount r ?_)
                  fun _ w6 h6 hinformed => Body.ret hΓ fun hdeferred => ?_
                · rw [h5.frames, h4.frames, h03.frames]
                  exact hopen
                -- the notices that were written are those of the answer
                obtain ⟨notes, hp6, hsilent, htells⟩ :=
                  hinformed.notes hi hexec.ended.notifications
                have hdb6 : w6.db = w5.db := h6.db
                have hview : w6.view = addNotifications notes w5.view := by
                  rw [World.view, World.view, hp6, hdb6]
                rw [hdb6, hview] at hdeferred ⊢
                refine hexec.outcome hi hnew (fun u hu => ?_)
                  (fun t u name balance h2 hbody hbits hfresh hu => ?_) hsilent hdeferred
                · rw [hu, hdb5]
                  exact ⟨⟨chatRoom, hr, hrpk.trans hroom, hkind⟩, x, hx, hroom, hrow.2⟩
                · rw [hu]
                  exact htells t name balance h2 hbody hbits hfresh

/-! ## Every run of a call -/

theorem wp_paymentCall (c : PaymentCall) (hi : Recorded s) (hnew : NewKey c.call s)
    (hidle : Idle w) (hdb : w.db = s) :
    wp (lone c s) (c.run p) (LonePost c s) w := by
  cases c with
  | transfer user name amount key => exact wp_transfer_lone user name amount key hi hnew hidle hdb
  | transferForProductRoom user room amount key =>
      exact wp_lone hidle hdb fun w1 hpend hopen hdb1 =>
        body_roomTransfer_lone hi hnew hpend hopen hdb1

/-- A call that returns has changed the store. -/
theorem Outcome.ne {c : PaymentCall} {r : TransferResult} (h : Outcome c r s s') : s' ≠ s := by
  have hlen : s'.requests.length = s.requests.length + 1 := by
    rcases h with ⟨x, hx⟩ | ⟨-, a, -, -, n, hs'⟩
    · rw [hx.after]
      exact List.length_append
    · rw [hs']
      exact List.length_append
  intro e
  rw [e] at hlen
  omega

/-- **ALL OR NOTHING**: a call with a new key, any statement of which may fail, leaves the
    whole payment or a stored denial behind when it returns, and nothing when it raises;
    and at no moment is there anything else in the store. -/
theorem transfer_all_or_nothing (p : Platform) (call : PaymentCall) {s : Store} {now : Time}
    {c : Config (Fin 1) Store Lock Exn Obs TransferResult} (hi : Recorded s)
    (hnew : NewKey call.call s) (hr : Reached s now (fun _ => call.run p) c) :
    (∀ r, c.prog 0 = .ret r → Outcome call r s c.db ∧ c.db ≠ s) ∧
    (∀ e, c.prog 0 = .raise e → c.db = s) ∧
    (c.db = s ∨ ∃ r, Outcome call r s c.db) := by
  have hfit : Fits (postgres fun _ _ => False) (fun _ : Fin 1 => lone call s) :=
    fits_alone _ Lock.conflicts_symm fun _ _ h => False.elim h
  have hsup : Supported (fun _ : Fin 1 => lone call s) (fun _ => LonePost call s)
      (Config.start s now fun _ => call.run p) :=
    supported_start hfit.lawful fun _ => wp_paymentCall call hi hnew ⟨rfl, rfl, rfl⟩ rfl
  have hgiven : ∀ d : Config (Fin 1) Store Lock Exn Obs TransferResult,
      AllSee (fun _ => (lone call s).given) d := fun _ _ _ _ _ _ => trivial
  refine ⟨fun r he => ?_, fun e he => ?_, ?_⟩
  · obtain ⟨w, henv, -, hout⟩ := run_ended hfit hsup hr (hgiven c) (r := .ok r) he
    have hdb : c.db = w.db := henv.db
    have hc : Outcome call r s c.db := by
      rw [hdb]
      exact hout
    exact ⟨hc, hc.ne⟩
  · obtain ⟨w, henv, -, hs⟩ := run_ended hfit hsup hr (hgiven c) (r := .error e) he
    exact Eq.trans henv.db hs
  · refine run_onward (J := fun d => d = s ∨ ∃ r, Outcome call r s d) hfit hsup
      (fun _ _ _ h => False.elim h) (fun _ _ _ _ _ hg => Or.inr hg.2) (Reaches.refl _ _) hr
      (hgiven c) (Or.inl rfl)

/-- A seller, a buyer and their room. -/
def oneRoom : Store where
  users := [{ pk := 1, username := "buyer" }, { pk := 2, username := "seller" }]
  accounts := [{ pk := 7, user := 1, balance := 2500 }, { pk := 8, user := 2, balance := 0 }]
  ledgerAccounts := [{ pk := 5, kind := .user, mockAccount := some 7, code := "USER:1" },
    { pk := 6, kind := .user, mockAccount := some 8, code := "USER:2" }]
  rooms := [{ pk := 3, kind := .product }]
  conversations := [{ pk := 4, room := 3, product := 11, seller := 2, buyer := 1 }]
  safety := some {}

def payInRoom : PaymentCall := .transferForProductRoom 1 3 2500 9

theorem transfer_all_or_nothing_oneRoom :
    ∃ c : Config (Fin 1) Store Lock Exn Obs TransferResult,
      Reached oneRoom 1000 (fun _ => payInRoom.run plainPlatform) c ∧
      (c.db.accounts.map (·.balance), c.db.notifications.map (·.kind)) =
        ([0, 2500], ["TRANSFER_SENT", "TRANSFER_RECEIVED"]) ∧
      (c.db = oneRoom ∨ ∃ r, Outcome payInRoom r oneRoom c.db) := by
  have hplay : (play validateBalancedJournal [.run 0 100 id]
      (Config.start (V := Obs) oneRoom 1000 fun _ : Fin 1 => payInRoom.run plainPlatform)).map
        (fun d => (d.db.accounts.map (·.balance), d.db.notifications.map (·.kind))) =
      some ([0, 2500], ["TRANSFER_SENT", "TRANSFER_RECEIVED"]) := by decide +kernel
  obtain ⟨c, hr, hb⟩ := reaches_of_play (D := postgres fun _ _ => False) (f := fun d => _) hplay
  refine ⟨c, hr, hb, (transfer_all_or_nothing plainPlatform payInRoom
    ⟨by decide, by decide, fun _ hn => absurd hn List.not_mem_nil⟩
    (fun _ hq => absurd hq List.not_mem_nil) hr).2.2⟩

end Market
