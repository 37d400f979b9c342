import Marketplace.AmountSpecs

/-! # Amounts in every run

    Requests for payments among all the others, in any interleaving.  The text of an amount
    that was admitted is what the answer, the payload, both notifications and the inbox
    say, and the balance in the answer is the whole balance after the payment. -/

namespace Market

open TxnProgram TxnInterleaving TxnLogic TxnProtection TxnSoundness TxnBody TxnFrames
  TxnInvariants TxnSchedule

variable {p : Platform} {Γ : Ctx Store Lock Exn Obs} {w w' : World Store Lock Obs}
  {s s' : Store}

/-! ## The requests -/

/-- The context of a session that takes part in payments. -/
def amountBase (p : Platform) : Ctx Store Lock Exn Obs :=
  market p ⟨fun _ _ => True, AmountStep p⟩ (fun _ _ _ => True) fun _ _ _ => True

/-- The same, where the others are known to keep the invariant. -/
def amountCtx (p : Platform) : Ctx Store Lock Exn Obs :=
  along (amountBase p) fun s s' => AmountInv s → AmountInv s'

/-- The steps that keep the amounts whole compose. -/
theorem amountRole_lawful : Role.Lawful ⟨fun _ _ => True, AmountStep p⟩ :=
  ⟨fun _ => trivial, fun _ _ _ _ _ => trivial⟩

theorem amountBase_abides (p : Platform) : Abides p (amountBase p) :=
  market_abides amountRole_lawful fun _ _ => trivial

/-- Keeping the invariant composes. -/
theorem amountInv_composes : Composes fun s s' => AmountInv s → AmountInv s' :=
  ⟨fun _ h => h, fun _ _ _ h h' hi => h' (h hi)⟩

/-- The sessions keep the discipline of the locks. -/
theorem amountCtx_abides (p : Platform) : Abides p (amountCtx p) where
  lawful := along_lawful (amountBase_abides p).lawful amountInv_composes
  rely held s s' h := (amountBase_abides p).rely held s s' h.1
  leave := (amountBase_abides p).leave
  deferred := (amountBase_abides p).deferred

/-- Every session of the context keeps the amounts whole. -/
theorem amountCtx_keeps : KeepsAmounts (amountCtx p) := fun _ _ _ h => h.2

theorem amountCtx_commits : AmountCommits p (amountCtx p) :=
  fun _ _ _ hleave hstep hinv => ⟨hleave.1.1, ⟨hleave.1, hleave.2, hstep⟩, hinv⟩

/-- The other services leave the amounts alone. -/
theorem amountQuiet_licensed {k : WriteKind} {held : List Lock} {f : Store → Store}
    (h : Licensed held k f) (s : Store) : AmountQuiet s (f s) := by
  have haccounts := (ledgerQuiet_licensed h s).accounts
  cases h with
  | notifications pks =>
      exact ⟨haccounts, rfl, rfl, fun n hn _ => List.mem_of_mem_filter hn⟩
  | _ => exact ⟨haccounts, rfl, rfl, fun _ hn _ => hn⟩

/-- Closing an account writes no amount. -/
theorem CloseEnd.amountQuiet {user : Nat} {held : List Lock} {s : Store} {r : Bool}
    {f : Store → Store} (h : CloseEnd user held s r f) (s' : Store) :
    AmountQuiet s' (f s') := by
  have haccounts := (h.quiet s').accounts
  cases h with
  | already new => cases new <;> exact ⟨haccounts, rfl, rfl, fun _ hn _ => hn⟩
  | closed new a now _ => cases new <;> exact ⟨haccounts, rfl, rfl, fun _ hn _ => hn⟩

/-- The program commits nothing that has to do with payments. -/
def AmountsUntouched (p : Platform) (m : M Unit) : Prop :=
  Top (market p ⟨fun _ _ => True, fun _ => AmountQuiet⟩ (fun _ _ _ => True)
    fun _ _ _ => True) m

/-- A request, or whatever else is run beside them. -/
inductive AmountOp (p : Platform) where
  | createTransfer (request : HttpRequest TransferFields)
  | createRoomTransfer (request : HttpRequest RoomTransferFields) (room : Nat)
  | ensureAccount (user : Nat)
  | closeAccount (user : Nat)
  | withdrawAccount (user : Nat) (password : String)
  | other (m : M Unit) (h : AmountsUntouched p m)

namespace AmountOp

def run : AmountOp p → M (Option JsonResponse)
  | .createTransfer request => do
      let response ← Market.createTransfer p request
      return some response
  | .createRoomTransfer request room => do
      let response ← Market.createRoomTransfer p request room
      return some response
  | .ensureAccount user => do
      let _ ← Market.ensureAccount user
      return none
  | .closeAccount user => do
      let _ ← Market.closeAccount user
      return none
  | .withdrawAccount user password => do
      let _ ← Market.withdrawAccount user password
      return none
  | .other m _ => do
      m
      return none

/-- The call that a request is admitted with, and the text of its amount. -/
def asks : AmountOp p → Option (Call × String)
  | .createTransfer request => do
      let user ← request.user
      let data ← request.data
      let (recipient, amount, key) ← data.parse p
      return (⟨user, amount, key, canonicalPayload recipient amount⟩, data.amount)
  | .createRoomTransfer request room => do
      let user ← request.user
      let data ← request.data
      let (amount, key) ← data.parse p
      return (⟨user, amount, key, canonicalRoomPayload room amount⟩, data.amount)
  | _ => none

/-- **ADMITTED**: the text is that of the amount which the call asks for. -/
theorem asks_amount {op : AmountOp p} {c : Call} {raw : String} (h : op.asks = some (c, raw)) :
    ∃ a : Amount, raw = a.text ∧ c.amount = a.money ∧ AsksFor c.payload a := by
  cases op with
  | createTransfer request =>
      simp only [asks, Option.bind_eq_bind, Option.bind_eq_some_iff, Option.pure_def,
        Option.some.injEq, Prod.mk.injEq, Prod.exists] at h
      obtain ⟨user, -, data, -, recipient, amount, key, hparse, rfl, rfl⟩ := h
      rw [TransferFields.parse] at hparse
      split at hparse
      · cases hparse
      · simp only [Option.bind_eq_bind, Option.bind_eq_some_iff, Option.pure_def,
          Option.some.injEq, Prod.mk.injEq] at hparse
        obtain ⟨amount', hamount, key', -, rfl, rfl, rfl⟩ := hparse
        obtain ⟨a, htext, rfl⟩ := parseAmount_iff.mp hamount
        exact ⟨a, htext, rfl, Or.inl ⟨_, rfl⟩⟩
  | createRoomTransfer request room =>
      simp only [asks, Option.bind_eq_bind, Option.bind_eq_some_iff, Option.pure_def,
        Option.some.injEq, Prod.mk.injEq, Prod.exists] at h
      obtain ⟨user, -, data, -, amount, key, hparse, rfl, rfl⟩ := h
      simp only [RoomTransferFields.parse, Option.bind_eq_bind, Option.bind_eq_some_iff,
        Option.pure_def, Option.some.injEq, Prod.mk.injEq] at hparse
      obtain ⟨amount', hamount, key', -, rfl, rfl⟩ := hparse
      obtain ⟨a, htext, rfl⟩ := parseAmount_iff.mp hamount
      exact ⟨a, htext, rfl, Or.inr ⟨_, rfl⟩⟩
  | _ => cases h

/-- The response of an admitted request is an error, or it is stored for its payload. -/
def Post (op : AmountOp p) (r : Except Exn (Option JsonResponse)) (w : World Store Lock Obs) :
    Prop :=
  ∀ response c raw, r = .ok (some response) → op.asks = some (c, raw) →
    (∃ code, response.body = .error code) ∨
      ∃ q ∈ w.db.requests, SendsFrom c.user q.sender w.db ∧ q.canonicalPayload = c.payload ∧
        response.body = q.responseBody

/-- The response to a call is an error, or what was stored. -/
theorem wp_respond {c : Call} {m : M TransferResult} (h : wp Γ m (AmountPost c) w) :
    wp Γ (respond m) (fun r w' => ∀ response, r = .ok response →
      (∃ code, response.body = .error code) ∨
        ∃ q ∈ w'.db.requests, SendsFrom c.user q.sender w'.db ∧
          q.canonicalPayload = c.payload ∧ response.body = q.responseBody) w := by
  refine wp_tryCatch (wp_bind (wp_mono ?_ h))
  rintro (e | result) w1 ⟨-, -, hanswered⟩
  · show wp Γ _ _ w1
    cases e with
    | idempotencyConflict =>
        rintro _ ⟨⟩
        exact Or.inl ⟨_, rfl⟩
    | transferUnavailable =>
        rintro _ ⟨⟩
        exact Or.inl ⟨_, rfl⟩
    | _ => rintro _ ⟨⟩
  · rintro _ ⟨⟩
    obtain ⟨q, hq, howner, hpayload, hbody⟩ := hanswered result rfl
    exact Or.inr ⟨q, hq, howner, hpayload, hbody⟩

/-- A transaction of another role goes on here, when its commits are steps. -/
theorem top_amounts {R : Role Store Lock} {m : M α}
    (h : Top (market p R (fun _ _ _ => True) fun _ _ _ => True) m)
    (hstep : ∀ held s s', R.step held s s' → AmountStep p held s s') : Top (amountCtx p) m := by
  refine h.within ⟨⟨rfl, rfl⟩, fun _ hf => ⟨hf, hf⟩, fun _ _ _ hr => ⟨hr.1, hr.1⟩, ?_,
    fun _ _ _ hg => ⟨hg, hg⟩, fun _ _ _ hs _ => hs⟩
  intro held d d' hg _
  have hs := hstep held d d' hg.2.2
  exact ⟨⟨hg.1, trivial, hs⟩, fun hi => hi.step hs⟩

theorem top_withdrawAccount_amounts (user : Nat) (password : String) :
    Top (amountBase p) (Market.withdrawAccount user password) := by
  have hA := amountBase_abides p
  have hrun : MayRun (amountBase p) withdrawalWrites :=
    mayRun_of_frame hA.lawful (fun _ _ _ _ _ => trivial)
      (fun k _ held f hf s => hA.leave _ _ _ (respects_licensed hf s)) amountQuiet_composes
      (fun _ _ _ _ hf s => amountQuiet_licensed hf s)
      fun held s s' hleave hq => ⟨hleave.1, hleave.2, .quiet hq⟩
  exact top_withdrawAccount (hrun _ fun Γ' hΓ' hp _ =>
    safe_withdrawAccountBody hΓ' hp user password)

/-- **OPERATIONS**, each in the common context. -/
theorem wp_run (op : AmountOp p) (hidle : Idle w) (hi : AmountInv w.db) :
    wp (amountCtx p) op.run op.Post w := by
  have hA := amountCtx_abides p
  have hbase := amountBase_abides p
  have quiet : ∀ {β : Type} {m : M β}, op.asks = none → Top (amountCtx p) m →
      wp (amountCtx p) (m >>= fun _ => return none) op.Post w := by
    intro β m hnone htop
    refine wp_bind (wp_mono ?_ (htop w hidle))
    rintro (e | b) w1 - response c raw hr hasks
    · cases hr
    · cases hr
  -- a request answers with an error before it calls the service, or with the answer of this
  have answered : ∀ {m : M JsonResponse}, wp (amountCtx p) m (fun r w' => ∀ response,
        r = .ok response → op.Post (.ok (some response)) w') w →
      wp (amountCtx p) (m >>= fun response => return some response) op.Post w := by
    intro m h
    refine wp_bind (wp_mono ?_ h)
    rintro (e | response) w1 hpost
    · intro _ _ _ hr
      cases hr
    · exact hpost response rfl
  have refused : ∀ {code : String} {status : Nat}, wp (amountCtx p)
      (return errorResponse code status : M JsonResponse) (fun r w' => ∀ response,
        r = .ok response → op.Post (.ok (some response)) w') w := by
    rintro code status _ ⟨⟩ _ _ _ ⟨⟩ -
    exact Or.inl ⟨code, rfl⟩
  have called : ∀ {m : M TransferResult} {c : Call} {raw : String}, op.asks = some (c, raw) →
      wp (amountCtx p) m (AmountPost c) w → wp (amountCtx p) (respond m) (fun r w' =>
        ∀ response, r = .ok response → op.Post (.ok (some response)) w') w := by
    intro m c raw hasks h
    refine wp_mono ?_ (wp_respond h)
    rintro r w1 hresponse response hr _ _ _ ⟨⟩ hasks'
    cases hasks.symm.trans hasks'
    exact hresponse response hr
  cases op with
  | createTransfer request =>
      refine answered ?_
      rw [Market.createTransfer]
      split
      · exact refused
      · rename_i user huser
        split
        · exact refused
        · split
          · exact refused
          · rename_i recipient amount key hfields
            obtain ⟨data, hdata, hparse⟩ := Option.bind_eq_some_iff.mp hfields
            have hasks : asks (p := p) (.createTransfer request) =
                some (⟨user, amount, key, canonicalPayload recipient amount⟩, data.amount) := by
              simp [asks, huser, hdata, hparse]
            obtain ⟨a, -, hamount, -⟩ := asks_amount hasks
            exact called hasks (wp_transfer_amounts hA amountCtx_keeps amountCtx_commits
              hamount rfl hidle hi)
  | createRoomTransfer request room =>
      refine answered ?_
      rw [Market.createRoomTransfer]
      split
      · exact refused
      · rename_i user huser
        split
        · exact refused
        · split
          · exact refused
          · rename_i amount key hfields
            obtain ⟨data, hdata, hparse⟩ := Option.bind_eq_some_iff.mp hfields
            have hasks : asks (p := p) (.createRoomTransfer request room) =
                some (⟨user, amount, key, canonicalRoomPayload room amount⟩, data.amount) := by
              simp [asks, huser, hdata, hparse]
            obtain ⟨a, -, hamount, -⟩ := asks_amount hasks
            exact called hasks (wp_transferForProductRoom_amounts hA amountCtx_keeps
              amountCtx_commits hamount rfl hidle hi)
  | ensureAccount user =>
      refine quiet rfl (top_amounts (top_ensureAccount hbase fun a held s f hleave h => ?_)
        fun _ _ _ h => h)
      refine ⟨hleave.1, hleave.2, ?_⟩
      cases h with
      | found _ _ _ => exact .quiet (amountQuiet_composes.refl s)
      | opened o ho _ => exact .opened user o ho rfl
  | closeAccount user =>
      exact quiet rfl (top_amounts (top_closeAccount hbase fun r held s f hleave h =>
        ⟨hleave.1, hleave.2, .quiet (h.amountQuiet s)⟩) fun _ _ _ h => h)
  | withdrawAccount user password =>
      exact quiet rfl (top_amounts (top_withdrawAccount_amounts user password)
        fun _ _ _ h => h)
  | other m h => exact quiet rfl (top_amounts h fun _ _ _ => .quiet)

end AmountOp

/-! ## Every run -/

/-- No account has been opened, and nobody has been told of a payment. -/
structure NoMoney (s : Store) : Prop where
  accounts : s.accounts = []
  transfers : s.transfers = []
  requests : s.requests = []
  notifications : ∀ n ∈ s.notifications, ¬ AboutTransfer n

/-- A store without money has nothing to keep. -/
theorem NoMoney.inv (h : NoMoney s) : AmountInv s where
  accountKeys := by simp [h.accounts]
  transferKeys := by simp [h.transfers]
  whole := by simp [h.accounts]
  requests := by simp [h.requests]
  notices n hn habout := absurd habout (h.notifications n hn)

/-- The commit is that of the payment which the request is the answer of: the transfer is
    new, and the balance is the sender's. -/
structure PaidIn (q : TransferRequest) (t : Uuid) (balance : String) (e : Store × Store) :
    Prop where
  keeps : ∃ x ∈ e.2.accounts, x.pk = q.sender ∧
    ∃ n : Nat, x.balance = 100 * n ∧ balance = toString n
  transfer : (∀ x ∈ e.1.transfers, x.pk ≠ t) ∧ ∃ x ∈ e.2.transfers, x.pk = t
  told : ∀ room m, q.canonicalPayload = canonicalRoomPayload room m →
    ∃ sent ∈ e.2.notifications, ∃ received ∈ e.2.notifications,
      sent.kind = "TRANSFER_SENT" ∧ sent.eventKey = senderEventKey t ∧
      received.kind = "TRANSFER_RECEIVED" ∧ received.eventKey = recipientEventKey t

/-- **STEP**: a request that is new and completed is stored by its payment. -/
theorem AmountStep.paidIn {held : List Lock} (hi : AmountInv s) (h : AmountStep p held s s')
    {q : TransferRequest} (hq : q ∈ s'.requests) (hnew : q ∉ s.requests) {t : Uuid}
    {status name amount balance : String}
    (hbody : q.responseBody = .completed t status name amount balance) :
    PaidIn q t balance (s, s') := by
  cases h with
  | quiet hquiet =>
      rw [hquiet.requests] at hq
      exact absurd hq hnew
  | denied d hd he =>
      subst he
      rcases List.mem_append.mp hq with hq | hq
      · exact absurd hq hnew
      · rw [List.mem_singleton.mp hq, hd.body] at hbody
        cases hbody
  | opened user o ho he =>
      subst he
      rw [(o.apply_rows s).2.1] at hq
      exact absurd hq hnew
  | paid c a m notes hp he =>
      subst he
      have hready := hp.ready
      have hq' : q ∈ (m.apply s).requests := hq
      rw [(m.apply_rows s).1] at hq'
      rcases List.mem_append.mp hq' with hq' | hq'
      · exact absurd hq' hnew
      rw [List.mem_singleton.mp hq'] at hbody ⊢
      obtain ⟨name', hbody'⟩ := hready.body
      rw [hbody'] at hbody
      cases hbody
      have hne := hready.toMoveAllowed.ne hi.accountKeys
      refine ⟨?_, ⟨key_ne hready.transferFree, ?_⟩, fun room amount hroom => ?_⟩
      · -- the sender's account after the payment
        obtain ⟨n, hn⟩ := Movement.rebalance_whole hi hready hp.amount hready.senderRow
        refine ⟨m.rebalance m.sender, ?_, ?_, n, hn, ?_⟩
        · show _ ∈ (m.apply s).accounts
          rw [Movement.apply_accounts hne]
          exact List.mem_map_of_mem hready.senderRow
        · rw [m.rebalance_pk, hready.requestSender]
        · have hbalance : (m.rebalance m.sender).balance = m.sender.balance - m.amount := by
            rw [Movement.rebalance, if_neg hne, if_pos rfl]
          rw [← hbalance, hn, format0f_whole]
      · show ∃ x ∈ (m.apply s).transfers, x.pk = m.transfer
        rw [(m.apply_rows s).2]
        exact ⟨_, List.mem_append_right _ (List.mem_singleton_self _), rfl⟩
      · rw [hready.request.payload] at hroom
        rcases hp.notes with ⟨-, recipient, hdirect⟩ | ⟨⟨htwo, -⟩, -⟩
        · exact absurd (hdirect.symm.trans hroom) canonicalPayload_ne_room
        · obtain ⟨sent, received, rfl, -, hsent, hkey, hreceived, hkey'⟩ := htwo
          exact ⟨sent, List.mem_append_right _ (by simp), received,
            List.mem_append_right _ (by simp), hsent, hkey, hreceived, hkey'⟩

section Runs

variable {ι : Type} [DecidableEq ι] {ops : ι → AmountOp p} {now : Time}
  {c : Config ι Store Lock Exn Obs (Option JsonResponse)} {i : ι}

omit [DecidableEq ι] in
/-- The sessions fit the database together. -/
theorem amount_fits (p : Platform) :
    Fits (postgres fun _ _ => False) fun _ : ι => amountCtx p :=
  fits_along (market_fits p _ (fun _ => amountRole_lawful) _ _) amountInv_composes
    fun _ _ h => False.elim h

omit [DecidableEq ι] in
theorem amount_given : AllSee (fun _ => (amountCtx p).given) c := fun _ _ _ _ _ => trivial

section Started

variable (h : NoMoney s)
include h

omit [DecidableEq ι] in
/-- Every session starts supported. -/
theorem amount_supported : Supported (fun _ => amountCtx p) (fun i => (ops i).Post)
    (Config.start s now fun i => (ops i).run) :=
  supported_start (amount_fits p).lawful fun i =>
    (ops i).wp_run (w := ⟨s, now, {}⟩) ⟨rfl, rfl, rfl⟩ h.inv

/-- **RUN**: the invariant holds in every store reached. -/
theorem amountInv_reached (hr : Reached s now (fun i => (ops i).run) c) : AmountInv c.db :=
  run_onward (J := AmountInv) (amount_fits p) (amount_supported h)
    (fun _ _ _ h => False.elim h) (fun _ _ _ _ hi hg => hg.2 hi) (Reaches.refl _ _) hr
    amount_given h.inv

/-- **RUN**: every completed request has been stored by the commit of a payment. -/
theorem paidIn_reached (hr : Reached s now (fun i => (ops i).run) c) {q : TransferRequest}
    (hq : q ∈ c.db.requests) {t : Uuid} {status name amount balance : String}
    (hbody : q.responseBody = .completed t status name amount balance) :
    ∃ i, ∃ e ∈ commitsOf (c.sess i).hist, PaidIn q t balance e ∧ Keeps e.2 c.db := by
  induction hr with
  | refl =>
      have hnone : q ∈ s.requests := hq
      rw [h.requests] at hnone
      cases hnone
  | @tail b c' hr hs ih =>
      obtain ⟨who, hs⟩ := hs
      have hi : AmountInv b.db := amountInv_reached h hr
      have hold : q ∈ b.db.requests → Keeps b.db c'.db →
          ∃ i, ∃ e ∈ commitsOf (c'.sess i).hist, PaidIn q t balance e ∧ Keeps e.2 c'.db := by
        intro hq hk
        obtain ⟨i, e, he, hpaid, hkeeps⟩ := ih hq
        refine ⟨i, e, ?_, hpaid, hkeeps.trans hk⟩
        rcases commits_step hs i with ⟨-, hc⟩ | ⟨-, hc⟩
        · exact hc ▸ he
        · exact hc ▸ List.mem_cons_of_mem _ he
      cases who with
      | none =>
          cases hs with
          | tick _ t ht => exact hold hq (Keeps.refl _)
          | env _ s hs => exact False.elim hs
      | some j =>
          rcases run_step (amount_fits p) (amount_supported h) hr hs amount_given with
            hdb | hg
          · rw [hdb] at hq
            exact hold hq (by rw [hdb]; exact Keeps.refl _)
          · by_cases hbefore : q ∈ b.db.requests
            · exact hold hbefore hg.1.1.1
            · rcases commits_step hs j with ⟨hdb, -⟩ | ⟨-, hc⟩
              · rw [hdb rfl] at hq
                exact absurd hq hbefore
              · exact ⟨j, _, hc ▸ List.mem_cons_self,
                  AmountStep.paidIn hi hg.1.2.2 hq hbefore hbody, Keeps.refl _⟩

end Started

end Runs

/-! ## What is shown -/

/-- What the inbox says of a payment: who the other party is, when the name is known, and
    the number, which is the text of the amount but for the commas between the thousands. -/
def Displays (raw action detail : String) : Prop :=
  ∃ whom shown, detail = whom ++ shown ++ "원을 " ++ action ∧
    (whom = "" ∨ ∃ name, whom = name ++ "님에게 ") ∧
    shown.toList.filter (· != ',') = raw.toList

/-- The word for what was done, by the kind of the notification. -/
def actionOf (n : Notification) : String :=
  if n.kind == "TRANSFER_SENT" then "보냈습니다" else "받았습니다"

theorem Says.displays {t : Uuid} {a : Amount} {n : Notification} (h : Says t a n)
    (createdAt : Time) (readAt : Option Time) :
    Displays a.text (actionOf n) (inboxNotification n createdAt readAt).detail := by
  obtain ⟨name, hpayload⟩ := h.payload
  have hdetail : (inboxNotification n createdAt readAt).detail =
      transferDetail (transferPayload t a.money name) (actionOf n) := by
    rcases h.kind with hkind | hkind
    · simp [inboxNotification, actionOf, hkind, hpayload]
    · simp [inboxNotification, actionOf, hkind, hpayload]
  refine ⟨if (strip name).isEmpty then "" else strip name ++ "님에게 ",
    Decimals.thousands a.won, ?_, ?_, ?_⟩
  · rw [hdetail, transferDetail_payload]
  · split
    · exact Or.inl rfl
    · exact Or.inr ⟨_, rfl⟩
  · rw [Decimals.filter_thousands, a.text_toList]

/-- What is displayed is not the text for payloads that cannot be read. -/
theorem Displays.ne {raw detail : String} {n : Notification}
    (h : Displays raw (actionOf n) detail) : detail ≠ "송금 알림이 도착했습니다." := by
  obtain ⟨whom, shown, rfl, -⟩ := h
  intro he
  have hlast := congrArg (fun text : String => text.toList.getLast?) he
  rw [actionOf] at hlast
  split at hlast <;> simp [String.toList_append, List.getLast?_append] at hlast

/-- What became of the text of an amount that a session of the run was admitted with. -/
structure Survives {ι : Type} (c : Call) (raw : String) (response : JsonResponse)
    (d : Config ι Store Lock Exn Obs (Option JsonResponse)) : Prop where
  /-- The payload begins with the text, and two places. -/
  payload : format2f c.amount = raw ++ ".00" ∧
    ∃ rest, c.payload = "\x7b\"amount\":\"" ++ (raw ++ ".00") ++ "\"" ++ rest
  /-- The answer has the text, and the balance of the sender in the commit that paid: a
      whole number, and nothing of it rounded away. -/
  answer : ∀ t status name amount balance,
    response.body = .completed t status name amount balance → amount = raw ∧
      ∃ i, ∃ e ∈ commitsOf (d.sess i).hist,
        (∀ x ∈ e.1.transfers, x.pk ≠ t) ∧ (∃ x ∈ e.2.transfers, x.pk = t) ∧
        (∃ x ∈ e.2.accounts, x.user = c.user ∧
          ∃ n : Nat, x.balance = 100 * n ∧ balance = toString n) ∧
        ∀ room m, c.payload = canonicalRoomPayload room m →
          ∃ sent ∈ e.2.notifications, ∃ received ∈ e.2.notifications,
            sent.kind = "TRANSFER_SENT" ∧ sent.eventKey = senderEventKey t ∧
            received.kind = "TRANSFER_RECEIVED" ∧ received.eventKey = recipientEventKey t
  /-- Both notifications have the text, and the inbox shows it. -/
  notices : ∀ t status name amount balance,
    response.body = .completed t status name amount balance →
    ∀ n ∈ d.db.notifications,
      n.eventKey = senderEventKey t ∨ n.eventKey = recipientEventKey t →
      JsonObject.get n.payload "amount" = some (.str raw) ∧
      ∀ createdAt readAt,
        (inboxNotification n createdAt readAt).detail ≠ "송금 알림이 도착했습니다." ∧
        Displays raw (actionOf n) (inboxNotification n createdAt readAt).detail

/-- **AMOUNTS SURVIVE**: in every interleaving of requests, from a store without money on,
    every balance is a whole number of won, and the text of every amount that was admitted
    survives in whatever is made of it. -/
theorem amounts_survive {ι : Type} [DecidableEq ι] (p : Platform) (ops : ι → AmountOp p)
    {s : Store} {now : Time} (h : NoMoney s)
    {d : Config ι Store Lock Exn Obs (Option JsonResponse)}
    (hr : Reached s now (fun i => (ops i).run) d) :
    (∀ a ∈ d.db.accounts, ∃ n : Nat, a.balance = 100 * n) ∧
    ∀ i c raw response, (ops i).asks = some (c, raw) →
      d.prog i = Prog.ofAnswer (.ok (some response)) → Survives c raw response d := by
  have hi : AmountInv d.db := amountInv_reached h hr
  refine ⟨hi.whole, fun i c raw response hasks hreturned => ?_⟩
  obtain ⟨a, rfl, hamount, hasked⟩ := AmountOp.asks_amount hasks
  obtain ⟨w, he, hpost⟩ := run_ended (amount_fits p) (amount_supported h) hr amount_given
    hreturned
  have hkeeps : Keeps w.db d.db := he.db.1.1
  -- the stored request, and its amount
  have hstored : ∀ t status name amount balance,
      response.body = .completed t status name amount balance → ∃ q ∈ d.db.requests,
        SendsFrom c.user q.sender d.db ∧ q.canonicalPayload = c.payload ∧
        q.responseBody = .completed t status name amount balance ∧ amount = a.text ∧
        Transferred t a d.db := by
    intro t status name amount balance hbody
    rcases hpost response c a.text rfl hasks with ⟨code, herror⟩ | ⟨q, hq, howner, hpayload, hsame⟩
    · rw [hbody] at herror
      cases herror
    · have hq' := hkeeps.requests.subset hq
      have hbody' := hsame.symm.trans hbody
      obtain ⟨b, hasks', htext, ht⟩ := hi.requests q hq' t status name amount balance hbody'
      rw [hpayload] at hasks'
      have hmoney := hasks'.unique hasked
      have hwon : b.won = a.won := by
        have h100 : (100 : Int) * b.won = 100 * a.won := hmoney
        omega
      refine ⟨q, hq', howner.keeps hkeeps, hpayload, hbody', ?_, ?_⟩
      · rw [htext, Amount.text, hwon, Amount.text]
      · obtain ⟨hbits, x, hx, hpk, hxa⟩ := ht
        exact ⟨hbits, x, hx, hpk, hxa.trans hmoney⟩
  refine ⟨?_, fun t status name amount balance hbody => ?_,
    fun t status name amount balance hbody n hn hkey => ?_⟩
  · refine ⟨by rw [hamount, a.format2f], ?_⟩
    rcases hasked with ⟨recipient, he⟩ | ⟨room, he⟩
    · rw [he, canonicalPayload, a.jsonString_format2f]
      simp only [String.append_assoc]
      exact ⟨_, rfl⟩
    · rw [he, canonicalRoomPayload, a.jsonString_format2f]
      simp only [String.append_assoc]
      exact ⟨_, rfl⟩
  · obtain ⟨q, hq, howner, hpayload, hbody', htext, -⟩ := hstored _ _ _ _ _ hbody
    obtain ⟨j, e, hcommit, hpaid, hk⟩ := paidIn_reached h hr hq hbody'
    refine ⟨htext, j, e, hcommit, hpaid.transfer.1, hpaid.transfer.2, ?_, ?_⟩
    · obtain ⟨x, hx, hpk, hbalance⟩ := hpaid.keeps
      refine ⟨x, hx, ?_, hbalance⟩
      -- accounts keep their users
      have hx' : x.identity ∈ d.db.accounts.map MockAccount.identity :=
        hk.accounts.subset (List.mem_map_of_mem hx)
      obtain ⟨y, hy, hyid⟩ := List.mem_map.mp hx'
      have hypk : y.pk = q.sender := (congrArg Prod.fst hyid).trans hpk
      rw [← hypk] at howner
      exact (congrArg Prod.snd hyid).symm.trans (howner.user hi.accountKeys hy)
    · intro room m hroom
      exact hpaid.told room m (hpayload.trans hroom)
  · obtain ⟨q, -, -, -, -, -, ht⟩ := hstored _ _ _ _ _ hbody
    obtain ⟨t', b, hsays, ht'⟩ := hi.notices n hn (Or.inr (Or.inr ⟨t, ht.1, hkey⟩))
    have hsame : t' = t := eventKey_inj ht'.1 ht.1 hsays.key hkey
    subst hsame
    have hmoney := hi.amount ht' ht
    have htext : b.text = a.text := by
      have h100 : (100 : Int) * b.won = 100 * a.won := hmoney
      have hwon : b.won = a.won := by omega
      rw [Amount.text, hwon, Amount.text]
    refine ⟨?_, fun createdAt readAt => ?_⟩
    · obtain ⟨name', hpayload⟩ := hsays.payload
      rw [hpayload, ← htext, ← b.format0f]
      rfl
    · have hshown := hsays.displays createdAt readAt
      rw [htext] at hshown
      exact ⟨hshown.ne, hshown⟩

/-- The seller and the buyer of a lamp, and the room of their conversation. -/
def lampRoom : Store where
  users := [{ pk := 1, username := "seller" }, { pk := 2, username := "buyer" }]
  products := [{ pk := 11, owner := 1, title := "lamp" }]
  rooms := [{ pk := 5, kind := .product }]
  conversations := [{ pk := 6, room := 5, product := 11, seller := 1, buyer := 2 }]

/-- A platform that reads one key. -/
def oneKey : Platform := ⟨fun _ _ => 0, fun text => if text == uuidStr 9 then some 9 else none, id⟩

/-- Both open an account, and the buyer pays. -/
def openAndPay : Fin 3 → AmountOp oneKey
  | 0 => .ensureAccount 1
  | 1 => .ensureAccount 2
  | 2 => .createRoomTransfer ⟨some 2, "application/json", some ⟨"25000", uuidStr 9⟩⟩ 5

/-- The response of a request that has returned. -/
def returned : M (Option JsonResponse) → Option JsonResponse
  | .ret response => response
  | _ => none

theorem returned_some {m : M (Option JsonResponse)} {response : JsonResponse}
    (h : returned m = some response) : m = Prog.ofAnswer (.ok (some response)) := by
  cases m with
  | ret r =>
      have hr : r = some response := h
      rw [hr]
      rfl
  | _ => cases h

/-- The buyer has paid 25,000 won, and both have been told. -/
theorem amounts_survive_openAndPay :
    ∃ d : Config (Fin 3) Store Lock Exn Obs (Option JsonResponse),
      Reached lampRoom 0 (fun i => (openAndPay i).run) d ∧
      (d.db.accounts.map (·.balance) = [12500000, 7500000] ∧
        d.db.notifications.map (fun n => (inboxNotification n 0 none).detail) =
          ["seller님에게 25,000원을 보냈습니다", "buyer님에게 25,000원을 받았습니다"]) ∧
      (∀ a ∈ d.db.accounts, ∃ n : Nat, a.balance = 100 * n) ∧
      Survives ⟨2, 2500000, 9, canonicalRoomPayload 5 2500000⟩ "25000"
        ⟨.completed 31 "completed" "seller" "25000" "75000", 201⟩ d := by
  let seen (d : Config (Fin 3) Store Lock Exn Obs (Option JsonResponse)) :=
    (d.db.accounts.map (·.balance),
      d.db.notifications.map (fun n => (inboxNotification n 0 none).detail), returned (d.prog 2))
  have hplay : (play validateBalancedJournal [.run 0 100 (fun k => 10 + k),
      .run 1 100 (fun k => 20 + k), .run 2 200 (fun k => 30 + k)]
      (Config.start lampRoom 0 fun i => (openAndPay i).run)).map seen =
      some ([12500000, 7500000],
        ["seller님에게 25,000원을 보냈습니다", "buyer님에게 25,000원을 받았습니다"],
        some ⟨.completed 31 "completed" "seller" "25000" "75000", 201⟩) := by decide +kernel
  obtain ⟨d, hr, hseen⟩ := reaches_of_play (D := postgres fun _ _ => False) (f := seen) hplay
  obtain ⟨hbalances, hrest⟩ := Prod.mk.inj hseen
  obtain ⟨hdetails, hreturned⟩ := Prod.mk.inj hrest
  have hempty : NoMoney lampRoom := ⟨rfl, rfl, rfl, fun n hn => by cases hn⟩
  obtain ⟨hwhole, hsurvives⟩ := amounts_survive oneKey openAndPay hempty hr
  have hparse : RoomTransferFields.parse oneKey ⟨"25000", uuidStr 9⟩ = some (2500000, 9) := by
    decide +kernel
  refine ⟨d, hr, ⟨hbalances, hdetails⟩, hwhole, hsurvives 2 _ _ _ ?_ (returned_some hreturned)⟩
  simp [openAndPay, AmountOp.asks, hparse]

end Market
