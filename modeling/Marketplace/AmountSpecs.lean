import Marketplace.Amounts
import Marketplace.TransferOutcomes

/-! # What payments leave of their amounts

    Balances are whole numbers of won, and what a payment writes of its amount is the same
    in the transfer, in the stored answer and in both notifications.  A commit of a payment
    is one step of this kind, because a new transfer has no notification yet. -/

namespace Market

open TxnProgram TxnInterleaving TxnLogic TxnProtection TxnSoundness TxnBody TxnFrames

variable {p : Platform} {Γ : Ctx Store Lock Exn Obs} {w w' : World Store Lock Obs}
  {s s' : Store}

/-! ## The invariant -/

/-- The payload asks for the amount. -/
def AsksFor (payload : String) (a : Amount) : Prop :=
  (∃ recipient, payload = canonicalPayload recipient a.money) ∨
    ∃ room, payload = canonicalRoomPayload room a.money

/-- A payload asks for one amount only. -/
theorem AsksFor.unique {payload : String} {a b : Amount} (ha : AsksFor payload a)
    (hb : AsksFor payload b) : a.money = b.money := by
  rcases ha with ⟨r, hr⟩ | ⟨m, hm⟩
  · rcases hb with ⟨r', hr'⟩ | ⟨m', hm'⟩
    · exact (canonicalPayload_injective (hr.symm.trans hr')).2
    · exact absurd (hr.symm.trans hm') canonicalPayload_ne_room
  · rcases hb with ⟨r', hr'⟩ | ⟨m', hm'⟩
    · exact absurd (hr'.symm.trans hm) canonicalPayload_ne_room
    · exact (canonicalRoomPayload_injective (hm.symm.trans hm')).2

/-- The key of a notification of the transfer. -/
def KeyOf (t : Uuid) (n : Notification) : Prop :=
  n.eventKey = senderEventKey t ∨ n.eventKey = recipientEventKey t

/-- The notification is about a transfer, by its kind or by its key. -/
def AboutTransfer (n : Notification) : Prop :=
  n.kind = "TRANSFER_SENT" ∨ n.kind = "TRANSFER_RECEIVED" ∨ ∃ t < 2 ^ 128, KeyOf t n

/-- The notification says that the amount was transferred. -/
structure Says (t : Uuid) (a : Amount) (n : Notification) : Prop where
  key : KeyOf t n
  kind : n.kind = "TRANSFER_SENT" ∨ n.kind = "TRANSFER_RECEIVED"
  payload : ∃ name, n.payload = transferPayload t a.money name

/-- The transfer of the amount is recorded. -/
def Transferred (t : Uuid) (a : Amount) (s : Store) : Prop :=
  t < 2 ^ 128 ∧ ∃ x ∈ s.transfers, x.pk = t ∧ x.amount = a.money

/-- **INVARIANT** of the amounts. -/
structure AmountInv (s : Store) : Prop where
  accountKeys : (s.accounts.map (·.pk)).Nodup
  transferKeys : (s.transfers.map (·.pk)).Nodup
  whole : ∀ a ∈ s.accounts, ∃ n : Nat, a.balance = 100 * n
  requests : ∀ q ∈ s.requests, ∀ t status name amount balance,
    q.responseBody = .completed t status name amount balance →
    ∃ a : Amount, AsksFor q.canonicalPayload a ∧ amount = a.text ∧ Transferred t a s
  notices : ∀ n ∈ s.notifications, AboutTransfer n →
    ∃ t a, Says t a n ∧ Transferred t a s

theorem Transferred.mono {t : Uuid} {a : Amount} (h : Transferred t a s)
    (hrows : s.transfers ⊆ s'.transfers) : Transferred t a s' := by
  obtain ⟨hbits, x, hx, hrest⟩ := h
  exact ⟨hbits, x, hrows hx, hrest⟩

/-- A transfer has one amount. -/
theorem AmountInv.amount (hi : AmountInv s) {t : Uuid} {a b : Amount}
    (ha : Transferred t a s) (hb : Transferred t b s) : a.money = b.money := by
  obtain ⟨-, x, hx, hxt, hxa⟩ := ha
  obtain ⟨-, y, hy, hyt, hyb⟩ := hb
  rw [← hxa, ← hyb, eq_of_key hi.transferKeys hx hy (hxt.trans hyt.symm)]

/-! ## Steps -/

/-- Balances, requests and transfers stay, and no notification of a transfer is added. -/
structure AmountQuiet (s s' : Store) : Prop where
  accounts : s'.accounts.map MockAccount.holding = s.accounts.map MockAccount.holding
  requests : s'.requests = s.requests
  transfers : s'.transfers = s.transfers
  notifications : ∀ n ∈ s'.notifications, AboutTransfer n → n ∈ s.notifications

theorem amountQuiet_composes : Composes AmountQuiet where
  refl _ := ⟨rfl, rfl, rfl, fun _ hn _ => hn⟩
  trans _ _ _ h h' := ⟨h'.accounts.trans h.accounts, h'.requests.trans h.requests,
    h'.transfers.trans h.transfers,
    fun n hn ha => h.notifications n (h'.notifications n hn ha) ha⟩

theorem AmountInv.quiet (hi : AmountInv s) (h : AmountQuiet s s') : AmountInv s' where
  accountKeys := by
    have hpk := congrArg (List.map Prod.fst) h.accounts
    rw [List.map_map, List.map_map] at hpk
    show (s'.accounts.map (Prod.fst ∘ MockAccount.holding)).Nodup
    rw [hpk]
    exact hi.accountKeys
  transferKeys := by
    rw [h.transfers]
    exact hi.transferKeys
  whole a ha := by
    have hm : a.holding ∈ s.accounts.map MockAccount.holding := by
      rw [← h.accounts]
      exact List.mem_map_of_mem ha
    obtain ⟨b, hb, hh⟩ := List.mem_map.mp hm
    obtain ⟨n, hn⟩ := hi.whole b hb
    exact ⟨n, (congrArg Prod.snd hh).symm.trans hn⟩
  requests q hq t status name amount balance hbody := by
    rw [h.requests] at hq
    obtain ⟨a, hasks, htext, ht⟩ := hi.requests q hq t status name amount balance hbody
    exact ⟨a, hasks, htext, ht.mono (by rw [h.transfers]; exact List.Subset.refl _)⟩
  notices n hn habout := by
    obtain ⟨t, a, hsays, ht⟩ := hi.notices n (h.notifications n hn habout) habout
    exact ⟨t, a, hsays, ht.mono (by rw [h.transfers]; exact List.Subset.refl _)⟩

/-- The two notifications of a payment from a room. -/
structure Both (user : Nat) (t : Uuid) (a : Amount) (notes : List Notification) : Prop where
  two : ∃ sent received, notes = [sent, received] ∧ sent.recipient = user ∧
    sent.kind = "TRANSFER_SENT" ∧ sent.eventKey = senderEventKey t ∧
    received.kind = "TRANSFER_RECEIVED" ∧ received.eventKey = recipientEventKey t
  each : ∀ n ∈ notes, Says t a n

/-- The notifications of a payment: none of a direct one, and both from a room. -/
def NotesOf (c : Call) (t : Uuid) (a : Amount) (notes : List Notification) : Prop :=
  notes = [] ∧ (∃ recipient, c.payload = canonicalPayload recipient a.money) ∨
    Both c.user t a notes ∧ ∃ room, c.payload = canonicalRoomPayload room a.money

/-- A payment of the amount, with its notifications when it is made from a room. -/
structure Pays (p : Platform) (c : Call) (a : Amount) (held : List Lock) (s : Store)
    (m : Movement) (notes : List Notification) : Prop where
  ready : MoveReady p c held s m
  amount : c.amount = a.money
  bits : m.transfer < 2 ^ 128
  notes : NotesOf c m.transfer a notes

theorem Pays.asks {c : Call} {a : Amount} {held : List Lock} {m : Movement}
    {notes : List Notification} (h : Pays p c a held s m notes) :
    AsksFor m.request.canonicalPayload a := by
  rw [h.ready.request.payload]
  rcases h.notes with ⟨-, hdirect⟩ | ⟨-, hroom⟩
  · exact Or.inl hdirect
  · exact Or.inr hroom

theorem Pays.notice {c : Call} {a : Amount} {held : List Lock} {m : Movement}
    {notes : List Notification} (h : Pays p c a held s m notes) {n : Notification}
    (hn : n ∈ notes) : Says m.transfer a n := by
  rcases h.notes with ⟨rfl, -⟩ | ⟨hboth, -⟩
  · cases hn
  · exact hboth.each n hn

/-- What a commit does to the amounts. -/
inductive AmountStep (p : Platform) (held : List Lock) (s s' : Store) : Prop where
  | quiet : AmountQuiet s s' → AmountStep p held s s'
  | denied (q : TransferRequest) : Denial q → s' = addRequest q s → AmountStep p held s s'
  | paid (c : Call) (a : Amount) (m : Movement) (notes : List Notification) :
      Pays p c a held s m notes → s' = addNotifications notes (m.apply s) →
      AmountStep p held s s'
  | opened (user : Nat) (o : Opening) : OpeningReady user held s o → s' = o.apply s →
      AmountStep p held s s'

/-- The rows of accounts and transfers after an opening. -/
theorem Opening.apply_rows (o : Opening) (s : Store) :
    (o.apply s).accounts = s.accounts ++ [o.account] ∧
      (o.apply s).requests = s.requests ∧ (o.apply s).transfers = s.transfers ∧
      (o.apply s).notifications = s.notifications := by
  rw [Opening.apply]
  cases o.newSafety <;> cases o.newReserve <;>
    simp [whenNew, addSafety, addEntries, addJournal, addLedgerAccount, addAccount]

/-- The balances after a payment of whole numbers. -/
theorem Movement.rebalance_whole {c : Call} {a : Amount} {held : List Lock} {m : Movement}
    (hi : AmountInv s) (h : MoveReady p c held s m) (hamount : c.amount = a.money)
    {x : MockAccount} (hx : x ∈ s.accounts) : ∃ n : Nat, (m.rebalance x).balance = 100 * n := by
  obtain ⟨k, hk⟩ := hi.whole m.sender h.senderRow
  obtain ⟨l, hl⟩ := hi.whole m.recipient h.recipientRow
  have hmoney : m.amount = 100 * (a.won : Int) := h.amount.trans hamount
  have henough : (100 : Int) * a.won ≤ 100 * k := by
    rw [← hk, ← hmoney, h.amount]
    exact h.enough
  rw [Movement.rebalance]
  by_cases hr : x.pk = m.recipient.pk
  · refine ⟨l + a.won, ?_⟩
    have hsum : (100 : Int) * l + 100 * a.won = 100 * ((l + a.won : Nat) : Int) := by omega
    rw [if_pos hr, hl, hmoney]
    exact hsum
  · rw [if_neg hr]
    by_cases hs : x.pk = m.sender.pk
    · refine ⟨k - a.won, ?_⟩
      have hdiff : (100 : Int) * k - 100 * a.won = 100 * ((k - a.won : Nat) : Int) := by omega
      rw [if_pos hs, hk, hmoney]
      exact hdiff
    · rw [if_neg hs]
      exact hi.whole x hx

/-- **STEP**: every commit keeps the invariant. -/
theorem AmountInv.step {held : List Lock} (hi : AmountInv s) (h : AmountStep p held s s') :
    AmountInv s' := by
  cases h with
  | quiet hq => exact hi.quiet hq
  | denied q hd he =>
      subst he
      refine ⟨hi.accountKeys, hi.transferKeys, hi.whole, fun q' hq' => ?_, hi.notices⟩
      rcases List.mem_append.mp hq' with hq' | hq'
      · exact hi.requests q' hq'
      · -- a denial names no amount
        rw [List.mem_singleton.mp hq', hd.body]
        intro _ _ _ _ _ hbody
        cases hbody
  | opened user o ho he =>
      subst he
      obtain ⟨haccounts, hrequests, htransfers, hnotifications⟩ := o.apply_rows s
      refine ⟨?_, ?_, fun a ha => ?_, ?_, ?_⟩
      · rw [haccounts, List.map_append, List.nodup_append]
        refine ⟨hi.accountKeys, List.nodup_singleton _, ?_⟩
        intro n hn m hm
        obtain ⟨b, hb, rfl⟩ := List.mem_map.mp hn
        rw [List.mem_singleton.mp hm]
        exact key_ne ho.accountFree.free b hb
      · rw [htransfers]
        exact hi.transferKeys
      · rw [haccounts] at ha
        rcases List.mem_append.mp ha with ha | ha
        · exact hi.whole a ha
        · refine ⟨100000, ?_⟩
          rw [List.mem_singleton.mp ha, ho.accountBalance]
          rfl
      · rw [hrequests]
        intro q hq t status name amount balance hbody
        obtain ⟨a, hasks, htext, ht⟩ := hi.requests q hq t status name amount balance hbody
        exact ⟨a, hasks, htext, ht.mono (by rw [htransfers]; exact List.Subset.refl _)⟩
      · rw [hnotifications]
        intro n hn habout
        obtain ⟨t, a, hsays, ht⟩ := hi.notices n hn habout
        exact ⟨t, a, hsays, ht.mono (by rw [htransfers]; exact List.Subset.refl _)⟩
  | paid c a m notes hp he =>
      subst he
      have hne := hp.ready.toMoveAllowed.ne hi.accountKeys
      have haccounts := Movement.apply_accounts (s := s) hne
      obtain ⟨hrequests, htransfers⟩ := m.apply_rows s
      have hrows : s.transfers ⊆ (m.apply s).transfers := by
        rw [htransfers]
        exact List.subset_append_left _ _
      have hnew : Transferred m.transfer a (m.apply s) := by
        rw [Transferred, htransfers]
        exact ⟨hp.bits, _, List.mem_append_right _ (List.mem_singleton_self _), rfl,
          hp.ready.amount.trans hp.amount⟩
      refine ⟨?_, ?_, ?_, ?_, ?_⟩
      · show ((m.apply s).accounts.map (·.pk)).Nodup
        rw [haccounts, List.map_map]
        have hpk : s.accounts.map ((·.pk) ∘ m.rebalance) = s.accounts.map (·.pk) :=
          List.map_congr_left fun x _ => m.rebalance_pk x
        rw [hpk]
        exact hi.accountKeys
      · show ((m.apply s).transfers.map (·.pk)).Nodup
        rw [htransfers, List.map_append, List.nodup_append]
        refine ⟨hi.transferKeys, List.nodup_singleton _, ?_⟩
        intro k hk l hl
        obtain ⟨x, hx, rfl⟩ := List.mem_map.mp hk
        rw [List.mem_singleton.mp hl]
        exact key_ne hp.ready.transferFree x hx
      · intro x hx
        have hx' : x ∈ (m.apply s).accounts := hx
        rw [haccounts] at hx'
        obtain ⟨y, hy, rfl⟩ := List.mem_map.mp hx'
        exact Movement.rebalance_whole hi hp.ready hp.amount hy
      · intro q hq t status name amount balance hbody
        have hq' : q ∈ (m.apply s).requests := hq
        rw [hrequests] at hq'
        rcases List.mem_append.mp hq' with hq' | hq'
        · obtain ⟨b, hasks, htext, ht⟩ := hi.requests q hq' t status name amount balance hbody
          exact ⟨b, hasks, htext, ht.mono hrows⟩
        · -- the request of this payment
          rw [List.mem_singleton.mp hq'] at hbody ⊢
          obtain ⟨name', hbody'⟩ := hp.ready.body
          rw [hbody'] at hbody
          cases hbody
          refine ⟨a, hp.asks, ?_, hnew⟩
          rw [hp.ready.amount, hp.amount, a.format0f]
      · intro n hn habout
        have hn' : n ∈ s.notifications ++ notes := by
          have hsame : (m.apply s).notifications = s.notifications := by rw [m.apply_eq]
          rw [← hsame]
          exact hn
        rcases List.mem_append.mp hn' with hn' | hn'
        · obtain ⟨t, b, hsays, ht⟩ := hi.notices n hn' habout
          exact ⟨t, b, hsays, ht.mono hrows⟩
        · exact ⟨m.transfer, a, hp.notice hn', hnew⟩

/-! ## How a call ends -/

/-- How a call for the amount ends inside its transaction. -/
inductive AmountEnd (p : Platform) (c : Call) (a : Amount) (r : TransferResult)
    (held : List Lock) (s : Store) : (Store → Store) → Prop where
  | replayed (q : TransferRequest) : q ∈ s.requests → SendsFrom c.user q.sender s →
      q.canonicalPayload = c.payload → r.body = q.responseBody →
      AmountEnd p c a r held s id
  | denied (q : TransferRequest) : RequestReady p c held s q → Denial q →
      r.body = q.responseBody → AmountEnd p c a r held s (addRequest q)
  | paid (m : Movement) (notes : List Notification) : Pays p c a held s m notes →
      r.body = m.request.responseBody →
      AmountEnd p c a r held s fun s => addNotifications notes (m.apply s)

theorem AmountEnd.near {c : Call} {a : Amount} {r : TransferResult} {f : Store → Store}
    (hA : Abides p Γ) (h : AmountEnd p c a r w.sess.held w.db f) (hn : Near Γ w w') :
    AmountEnd p c a r w'.sess.held w'.db f := by
  have hk := hA.keeps hn
  cases h with
  | replayed q hq howner hpayload hr =>
      exact .replayed q (hk.requests.subset hq) (howner.keeps hk) hpayload hr
  | denied q hq hd hr => exact .denied q (hq.near hA hn) hd hr
  | paid m notes hp hr =>
      exact .paid m notes ⟨hp.ready.near hA hn, hp.amount, hp.bits, hp.notes⟩ hr

theorem AmountEnd.step {c : Call} {a : Amount} {r : TransferResult} {held : List Lock}
    {f : Store → Store} (h : AmountEnd p c a r held s f) : AmountStep p held s (f s) := by
  cases h with
  | replayed q _ _ _ _ => exact .quiet (amountQuiet_composes.refl s)
  | denied q _ hd _ => exact .denied q hd rfl
  | paid m notes hp _ => exact .paid c a m notes hp rfl

/-- The answer of a call is the one stored for its payload. -/
def AnswerStored (c : Call) (r : TransferResult) (s : Store) : Prop :=
  ∃ q ∈ s.requests, SendsFrom c.user q.sender s ∧ q.canonicalPayload = c.payload ∧
    r.body = q.responseBody

theorem AnswerStored.keeps {c : Call} {r : TransferResult} (h : AnswerStored c r s)
    (hk : Keeps s s') : AnswerStored c r s' := by
  obtain ⟨q, hq, howner, hrest⟩ := h
  exact ⟨q, hk.requests.subset hq, howner.keeps hk, hrest⟩

theorem AmountEnd.answered {c : Call} {a : Amount} {r : TransferResult} {held : List Lock}
    {f : Store → Store} (h : AmountEnd p c a r held s f) (hk : Keeps s (f s)) :
    AnswerStored c r (f s) := by
  cases h with
  | replayed q hq howner hpayload hr => exact ⟨q, hq, howner, hpayload, hr⟩
  | denied q hq _ hr =>
      refine ⟨q, ?_, hq.owner.keeps hk, hq.payload, hr⟩
      exact List.mem_append_right _ (List.mem_singleton_self q)
  | paid m notes hp hr =>
      refine ⟨m.request, ?_, hp.ready.request.owner.keeps hk, hp.ready.request.payload, hr⟩
      show m.request ∈ (m.apply s).requests
      rw [(m.apply_rows s).1]
      exact List.mem_append_right _ (List.mem_singleton_self _)

/-- **END**: what was executed and who was told, together. -/
theorem amountEnd_of {c : Call} {a : Amount} {r : TransferResult} {T : Nat → Prop}
    {notes : List Notification} {w1 : World Store Lock Obs} (hA : Abides p Γ)
    (h : Executed p c T r w1) (hw : Near Γ w1 w)
    (hp : w.sess.pend = fun s => addNotifications notes (w1.sess.pend s))
    (hamount : c.amount = a.money) (hsilent : r.notices = 0 → notes = [])
    (hnotes : ∀ m : Movement, MoveReady p c w.sess.held w.db m → m.transfer < 2 ^ 128 →
      w1.sess.pend = m.apply → r.notices = 2 → r.body = m.request.responseBody →
      NotesOf c m.transfer a notes) :
    AmountEnd p c a r w.sess.held w.db w.sess.pend := by
  have hend := h.ended.near hA hw
  have hadds := h.adds.transfers
  have hnone : notes = [] → w.sess.pend = w1.sess.pend := by
    intro hnil
    rw [hp, hnil]
    funext d
    exact addNotifications_nil _
  generalize hf : w1.sess.pend = f at hend hadds hp hnone hnotes
  cases hend with
  | replayed hr =>
      obtain ⟨q, hq, howner, -, hpayload, he⟩ := h.replayed hr
      have hk := hA.keeps hw
      rw [hnone (hsilent (by rw [TransferResult.notices, hr]; simp))]
      refine .replayed q (hk.requests.subset hq) (howner.keeps hk) hpayload ?_
      rw [he]
  | denied q hq hd hr =>
      rw [hnone (hsilent (by rw [TransferResult.notices, hr, hd.status]; rfl))]
      exact .denied q hq hd (by rw [hr])
  | moved m hm hr =>
      obtain ⟨rows, hrows, hbits⟩ := hadds w.db
      rw [(m.apply_rows w.db).2] at hrows
      rw [← List.append_cancel_left hrows] at hbits
      have hbits := (hbits _ (List.mem_singleton_self _)).2
      have hnotices : r.notices = 2 := by
        rw [hr, TransferResult.notices, hm.status]
        rfl
      rw [hp]
      exact .paid m notes ⟨hm, hamount, hbits,
        hnotes m hm hbits rfl hnotices (by rw [hr])⟩ (by rw [hr])

/-! ## The notifications of a new transfer -/

/-- The invariant is kept by the others. -/
def KeepsAmounts (Γ : Ctx Store Lock Exn Obs) : Prop :=
  ∀ held s s', Γ.rely held s s' → AmountInv s → AmountInv s'

/-- **TOLD**: there is no notification of a new transfer yet, so both are added. -/
theorem BothNoticed.notes {user recipient : Nat} {t : Uuid} {a : Amount} (hA : Abides p Γ)
    (hinv : KeepsAmounts Γ) (h : BothNoticed Γ user recipient t a.money w w')
    (hi : AmountInv w.db) (hpend : ∀ s, (w.sess.pend s).notifications = s.notifications)
    (hbits : t < 2 ^ 128) (hfree : ∀ x ∈ w'.db.transfers, x.pk ≠ t) :
    ∃ notes, Both user t a notes ∧
      w'.sess.pend = fun s => addNotifications notes (w.sess.pend s) := by
  obtain ⟨names, w1, w2, h1, h2, hsent, hreceived⟩ := h
  have hi1 : AmountInv w1.db := hinv _ _ _ h1.toNear.db hi
  have hi2 : AmountInv w2.db := hinv _ _ _ h2.toNear.db hi1
  have hpend1 : ∀ d, (w1.sess.pend d).notifications = d.notifications := by
    rw [h1.pend]
    exact hpend
  -- a notification that was there is of a transfer that still is
  have hnone : ∀ {d : Store} {n : Notification}, AmountInv d → Γ.rely [] d w'.db →
      n ∈ d.notifications → ¬ KeyOf t n := by
    intro d n hd hrely hn hkey
    obtain ⟨t', b, hsays, hbits', x, hx, hpk, -⟩ :=
      hd.notices n hn (Or.inr (Or.inr ⟨t, hbits, hkey⟩))
    have ht : t' = t := eventKey_inj hbits' hbits hsays.key hkey
    exact hfree x ((hA.rely _ _ _ hrely).1.transfers.subset hx) (hpk.trans ht)
  have hrely2 : Γ.rely [] w2.db w'.db := by
    cases hreceived with
    | found _ _ hs hs' _ _ _ _ => exact hA.lawful.trans _ _ _ _ hs hs'
    | created _ _ _ _ _ _ hs hs' _ _ _ =>
        exact hA.lawful.trans _ _ _ _ hs (hA.lawful.anti _ _ _ _ (List.nil_subset _) hs')
  cases hsent with
  | found n d hs hs' hn _ hkey _ =>
      rw [hpend1] at hn
      exact absurd (Or.inl hkey) (hnone (hinv _ _ _ hs hi1)
        (hA.lawful.trans _ _ _ _ hs' hrely2) hn)
  | created sent _ hsender hkey hkind hpayload _ _ _ _ hp2 =>
      cases hreceived with
      | found n d hs hs' hn _ hkey' _ =>
          rw [hp2] at hn
          rcases List.mem_append.mp hn with hn | hn
          · rw [hpend1] at hn
            exact absurd (Or.inr hkey') (hnone (hinv _ _ _ hs hi2) hs' hn)
          · rw [List.mem_singleton.mp hn, hkey] at hkey'
            exact absurd hkey'.symm (eventKeys_ne t t)
      | created received _ _ hkey' hkind' hpayload' _ _ _ _ hp3 =>
          refine ⟨[sent, received], ⟨⟨sent, received, rfl, hsender, hkind, hkey, hkind', hkey'⟩,
            fun n hn => ?_⟩, ?_⟩
          · rcases List.mem_pair.mp hn with rfl | rfl
            · exact ⟨Or.inl hkey, Or.inl hkind, _, hpayload⟩
            · exact ⟨Or.inr hkey', Or.inr hkind', _, hpayload'⟩
          · rw [hp3, hp2, h1.pend]
            funext d
            exact addNotifications_append _ _ _

/-! ## The calls -/

section Calls

variable {c : Call} {a : Amount}

/-- **SPECIFICATION** of `transfer_for_product_room`, of its amounts. -/
theorem Told.amountEnd {r : TransferResult} {room : Nat} (hA : Abides p Γ)
    (hinv : KeepsAmounts Γ) (h : Told Γ p c w r w') (hi : AmountInv w.db)
    (hamount : c.amount = a.money) (hpayload : c.payload = canonicalRoomPayload room c.amount) :
    AmountEnd p c a r w'.sess.held w'.db w'.sess.pend := by
  obtain ⟨recipient, w1, hw1, hexec, hw, hinformed⟩ := h
  have hi1 : AmountInv w1.db := hinv _ _ _ hw1.toNear.db hi
  have hsame := hexec.ended.notifications
  by_cases hnew : r.notices = 2 ∧ ∃ m : Movement, MoveReady p c w'.sess.held w'.db m ∧
      m.transfer < 2 ^ 128 ∧ r.body = m.request.responseBody
  · obtain ⟨htwo, m, hm, hbits, hbody⟩ := hnew
    obtain ⟨name, hcompleted⟩ := hm.body
    rw [hcompleted] at hbody
    have hboth := hinformed.told htwo _ _ _ _ _ hbody
    rw [hamount] at hboth
    obtain ⟨notes, htold, hp⟩ := hboth.notes hA hinv hi1 hsame hbits
      (key_ne hm.transferFree)
    refine amountEnd_of hA hexec hw.toNear hp hamount (fun h0 => ?_)
      fun m' hm' _ _ _ hbody' => Or.inr ⟨?_, room, by rw [hpayload, hamount]⟩
    · rw [htwo] at h0
      cases h0
    · obtain ⟨name', hcompleted'⟩ := hm'.body
      rw [hbody, hcompleted'] at hbody'
      rw [← (ResponseBody.completed.inj hbody').1]
      exact htold
  · obtain ⟨notes, hlen, hp⟩ := hinformed.notified
    refine amountEnd_of hA hexec hw.toNear hp hamount (fun h0 => ?_)
      fun m hm hbits _ htwo hbody => absurd ⟨htwo, m, hm, hbits, hbody⟩ hnew
    rw [h0] at hlen
    exact List.length_eq_zero_iff.mp (Nat.le_zero.mp hlen)

/-- The commit of a step is among what the session guarantees. -/
def AmountCommits (p : Platform) (Γ : Ctx Store Lock Exn Obs) : Prop :=
  ∀ held s s', Γ.leave held s s' → AmountStep p held s s' → (AmountInv s → AmountInv s') →
    Keeps s s' ∧ Γ.guar held s s'

/-- How a call leaves its session: the next attempt starts like this one, and an answer is
    stored. -/
def AmountPost (c : Call) (r : Except Exn TransferResult) (w' : World Store Lock Obs) : Prop :=
  Idle w' ∧ AmountInv w'.db ∧ ∀ result, r = .ok result → AnswerStored c result w'.db

theorem wp_amountTransaction (hA : Abides p Γ) (hinv : KeepsAmounts Γ)
    (hcommits : AmountCommits p Γ) {m : M TransferResult} (hidle : Idle w) (hi : AmountInv w.db)
    (hbody : ∀ w1 : World Store Lock Obs, w1.sess.pend = id → w1.sess.frames ≠ [] →
      AmountInv w1.db → Body Γ m w1
        (fun r w2 => AmountEnd p c a r w2.sess.held w2.db w2.sess.pend) anyError) :
    wp Γ (atomic m) (AmountPost c) w := by
  refine wp_transaction (P := fun _ r w1 => AmountEnd p c a r w1.sess.held w1.db w1.sess.pend)
    hA.lawful hidle (fun w' he => hbody _ ?_ ?_ ?_) anyError_faults ?_ ?_
  · rw [World.begin_pend, he.sess]
    exact hidle.pend
  · rw [World.begin_frames]
    exact List.cons_ne_nil _ _
  · rw [World.begin_db]
    exact hinv _ _ _ he.db hi
  · intro e w3 _ hidle3 _ hdb
    exact ⟨hidle3, hinv _ _ _ hdb hi, fun _ h => by cases h⟩
  · intro w' r w1 w2 he hw h he2 hleave
    have hend : AmountEnd p c a r w2.sess.held w2.db w2.sess.pend := by
      have hpend : w2.sess.pend = w1.sess.pend := by rw [he2.sess]
      rw [hpend]
      exact h.near hA he2.still.toNear
    have hi' : AmountInv w'.db := hinv _ _ _ he.db hi
    have hi1 : AmountInv w1.db := hinv _ _ _ hw.toNear.db (by rw [World.begin_db]; exact hi')
    have hi2 : AmountInv w2.db := hinv _ _ _ he2.db hi1
    have hstep : AmountStep p w2.sess.held w2.db w2.view := hend.step
    obtain ⟨hkeeps, hguar⟩ := hcommits _ _ _ hleave hstep fun h2 => h2.step hstep
    refine ⟨fun _ => ⟨hguar, publish_idle _, hi2.step hstep, ?_⟩, fun _ _ => trivial⟩
    rintro _ ⟨⟩
    exact hend.answered hkeeps

/-- **SPECIFICATION** of `transfer`, of its amounts. -/
theorem wp_transfer_amounts (hA : Abides p Γ) (hinv : KeepsAmounts Γ)
    (hcommits : AmountCommits p Γ) {name : String} (hamount : c.amount = a.money)
    (hpayload : c.payload = canonicalPayload name c.amount) (hidle : Idle w)
    (hi : AmountInv w.db) :
    wp Γ (transfer p c.user name c.amount c.key none) (AmountPost c) w := by
  refine wp_attempts (J := fun w' => Idle w' ∧ AmountInv w'.db) (fun {w'} hw => ?_)
    (fun _ _ h => ⟨h.1, h.2.1⟩) (fun _ _ _ h => ⟨h.1, h.2.1, fun _ he => by cases he⟩) 3
    ⟨hidle, hi⟩
  refine wp_amountTransaction (a := a) hA hinv hcommits hw.1 hw.2 fun w1 hpend _ _ => ?_
  have hfull : payloadOf name c.amount none = c.payload := hpayload.symm
  refine (body_executeOnceBody hA hfull hpend Named.any).mono fun r w2 _ h => ?_
  refine amountEnd_of hA h (Near.refl hA.lawful w2) ?_ hamount (fun _ => rfl)
    fun m _ _ _ _ _ => Or.inl ⟨rfl, name, by rw [hpayload, hamount]⟩
  funext d
  exact (addNotifications_nil _).symm

/-- **SPECIFICATION** of `transfer_for_product_room`, of its amounts. -/
theorem wp_transferForProductRoom_amounts (hA : Abides p Γ) (hinv : KeepsAmounts Γ)
    (hcommits : AmountCommits p Γ) {room : Nat} (hamount : c.amount = a.money)
    (hpayload : c.payload = canonicalRoomPayload room c.amount) (hidle : Idle w)
    (hi : AmountInv w.db) :
    wp Γ (transferForProductRoom p c.user room c.amount c.key) (AmountPost c) w :=
  wp_amountTransaction (a := a) hA hinv hcommits hidle hi fun _ hpend hopen hi1 =>
    (body_transferForProductRoom hA hpayload hpend hopen).mono fun _ _ _ h =>
      h.amountEnd hA hinv hi1 hamount hpayload

end Calls

end Market
