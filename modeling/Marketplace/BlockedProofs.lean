import Mathlib.Data.List.Basic
import Marketplace.WithdrawalRuns

/-! # Calls under a blocked safety state

    What each entry point does while the committed safety state is `BLOCKED`: the
    transfer and the closing refuse, the room transfer refuses its participants only,
    and a withdrawal does not ask. -/

namespace Market

open TxnProgram TxnRuns

variable {d : Store → Store → Option Exn} {ids : Nat → Nat} {s : Store}
  {now start : Time} {p : Platform}

/-- The committed safety state is `BLOCKED`. -/
def Blocked (s : Store) : Prop := ∃ t, s.safety = some t ∧ t.state = .blocked

/-- The account a user sends from. -/
def senderOf (user : Nat) (s : Store) : Option MockAccount :=
  s.accounts.find? (·.user == user)

/-- The stored request of a sender and a key. -/
def requestOf (sender : Nat) (key : Uuid) (s : Store) : Option TransferRequest :=
  s.requests.find? fun r => r.sender == sender && r.idempotencyKey == key

/-! ## `transfer` -/

theorem ends_executeOnceBody_blocked (hblocked : Blocked s) {user : Nat}
    {account : MockAccount} (haccount : senderOf user s = some account) {key : Uuid}
    (hkey : requestOf account.pk key s = none) (name : String) (amount : Money)
    (requestPayload : Option String) :
    Ends d (executeOnceBody p user name amount key requestPayload) ids s now start
      (.error .transferUnavailable) ids id := by
  obtain ⟨t, ht, hst⟩ := hblocked
  refine Ends.look (ends_getRow haccount) ?_
  refine Ends.look (Ends.acquire _) (Ends.look (Ends.acquire _) ?_)
  refine Ends.look (ends_firstForUpdate _ _ _ _) ?_
  rw [show (s.requests.find? fun r => r.sender == account.pk && r.idempotencyKey == key)
    = none from hkey]
  refine Ends.look (ends_getRow ht) (Ends.bindError (Ends.raiseIf_true ?_))
  rw [hst]
  rfl

/-- A savepoint of an attempt that is refused: it is not tried again. -/
theorem ends_attempts_blocked (hblocked : Blocked s) {user : Nat}
    {account : MockAccount} (haccount : senderOf user s = some account) {key : Uuid}
    (hkey : requestOf account.pk key s = none) (name : String) (amount : Money)
    (requestPayload : Option String) (left : Nat) :
    Ends d (attempts (executeOnce p user name amount key requestPayload) left) ids s now
      start (.error .transferUnavailable) ids id := by
  have honce : Ends d (executeOnce p user name amount key requestPayload) ids s now start
      (.error .transferUnavailable) ids id :=
    Ends.savepointError (ends_executeOnceBody_blocked hblocked haccount hkey _ _ _)
  cases left with
  | zero => exact Ends.tryError honce (Ends.raise _)
  | succ left => exact Ends.tryError honce (Ends.raise _)

/-- **TRANSFER**: a new key is refused, and nothing is stored. -/
theorem transfer_refused (hblocked : Blocked s) {user : Nat} {account : MockAccount}
    (haccount : senderOf user s = some account) {key : Uuid}
    (hkey : requestOf account.pk key s = none) (name : String) (amount : Money) :
    call (transfer p user name amount key none) ids now s =
      (.error .transferUnavailable, s) :=
  call_tryCatch_error (ends_executeOnceBody_blocked hblocked haccount hkey name amount none)
    rfl

/-! ## `transfer_for_product_room` -/

/-- The room is of a product conversation, and the user is one of its two parties. -/
def Participates (user room : Nat) (s : Store) : Prop :=
  ∃ conversation chatRoom seller buyer,
    joinConversation room s = some (conversation, chatRoom, seller, buyer) ∧
    chatRoom.kind = .product ∧ counterparty user conversation seller buyer ≠ none

theorem ends_findConversation (room : Nat) :
    Ends d (findConversation room) ids s now start (.ok (joinConversation room s)) ids
      id := by
  cases hjoin : joinConversation room s with
  | none =>
      refine Ends.tryError (e := .doesNotExist .conversation) (Ends.bindError ?_)
        (Ends.ret _)
      refine Ends.look (ends_fetch _) ?_
      rw [hjoin]
      exact Ends.raise _
  | some row =>
      obtain ⟨conversation, chatRoom, seller, buyer⟩ := row
      refine Ends.tryOk (Ends.look ?_ (Ends.ret _))
      refine Ends.look (ends_fetch _) ?_
      rw [hjoin]
      refine Ends.look (Ends.acquireAll _) (Ends.look (ends_fetch _) ?_)
      rw [hjoin]
      exact Ends.ret _

theorem ends_roomTransfer_blocked (hblocked : Blocked s) {user : Nat}
    {account : MockAccount} (haccount : senderOf user s = some account) {key : Uuid}
    (hkey : requestOf account.pk key s = none) {room : Nat}
    (hroom : Participates user room s) (amount : Money) :
    Ends d (transferForProductRoomBody p user room amount key) ids s now start
      (.error .transferUnavailable) ids id := by
  obtain ⟨conversation, chatRoom, seller, buyer, hjoin, hkind, hparty⟩ := hroom
  refine Ends.look (ends_getRow haccount) ?_
  refine Ends.look (Ends.acquire _) (Ends.look (ends_firstForUpdate _ _ _ _) ?_)
  rw [show (s.requests.find? fun r => r.sender == account.pk && r.idempotencyKey == key)
    = none from hkey]
  refine Ends.look (ends_findConversation room) ?_
  rw [hjoin]
  dsimp only
  rw [hkind, if_neg (by decide)]
  cases hp : counterparty user conversation seller buyer with
  | none => exact absurd hp hparty
  | some recipient =>
      exact Ends.bindError (ends_attempts_blocked hblocked haccount hkey _ _ _ _)

/-- **ROOM TRANSFER, PARTICIPANT**: a new key is refused, and nothing is stored. -/
theorem roomTransfer_refused (hblocked : Blocked s) {user : Nat} {account : MockAccount}
    (haccount : senderOf user s = some account) {key : Uuid}
    (hkey : requestOf account.pk key s = none) {room : Nat}
    (hroom : Participates user room s) (amount : Money) :
    call (transferForProductRoom p user room amount key) ids now s =
      (.error .transferUnavailable, s) :=
  call_error (ends_roomTransfer_blocked hblocked haccount hkey hroom amount)

/-- A denial is stored, unless the identifier made up for it is taken. -/
theorem ends_storeDenial (account : MockAccount) (key : Uuid) (payload : String) :
    ∃ ids', (∃ r q, Ends d (storeDenial account key payload) ids s now start (.ok r) ids'
        (addRequest q)) ∨
      Ends d (storeDenial account key payload) ids s now start (.error .integrityError)
        ids' id := by
  refine ⟨fun n => ids (n + 1), ?_⟩
  by_cases htaken : ∃ i ∈ [Index.pk .request (ids 0), .requestKey account.pk key],
      i.present s = true
  · obtain ⟨i, hi, hp⟩ := htaken
    exact Or.inr (Ends.bindError (Ends.look Ends.fresh (ends_insertRow_taken _ hi hp)))
  · refine Or.inl ⟨_, _, Ends.bindLook (Ends.look Ends.fresh
      (ends_insertRow _ fun i hi => ?_)) (Ends.ret _)⟩
    exact Bool.eq_false_iff.mpr fun hp => htaken ⟨i, hi, hp⟩

/-- Whoever is no party of a product conversation reaches the denial. -/
theorem ends_roomTransfer_denied {user : Nat} {account : MockAccount}
    (haccount : senderOf user s = some account) {key : Uuid}
    (hkey : requestOf account.pk key s = none) {room : Nat}
    (hroom : ¬ Participates user room s) {amount : Money}
    {r : Except Exn TransferResult} {ids' : Nat → Nat} {g : Store → Store}
    (hdenial : Ends d (storeDenial account key (canonicalRoomPayload room amount)) ids s
      now start r ids' g) :
    Ends d (transferForProductRoomBody p user room amount key) ids s now start r ids' g := by
  refine Ends.look (ends_getRow haccount) ?_
  refine Ends.look (Ends.acquire _) (Ends.look (ends_firstForUpdate _ _ _ _) ?_)
  rw [show (s.requests.find? fun r => r.sender == account.pk && r.idempotencyKey == key)
    = none from hkey]
  refine Ends.look (ends_findConversation room) ?_
  cases hjoin : joinConversation room s with
  | none => exact hdenial
  | some row =>
      obtain ⟨conversation, chatRoom, seller, buyer⟩ := row
      dsimp only
      by_cases hkind : chatRoom.kind = .product
      · rw [hkind, if_neg (by decide)]
        cases hp : counterparty user conversation seller buyer with
        | none => exact hdenial
        | some recipient =>
            refine absurd ⟨conversation, chatRoom, seller, buyer, hjoin, hkind, ?_⟩ hroom
            rw [hp]
            exact Option.some_ne_none _
      · rw [if_pos (bne_iff_ne.mpr hkind)]
        exact hdenial

/-- **ROOM TRANSFER, OTHERS**: they are answered before the safety state is asked
    for. -/
theorem roomTransfer_not_refused {user : Nat} {account : MockAccount}
    (haccount : senderOf user s = some account) {key : Uuid}
    (hkey : requestOf account.pk key s = none) {room : Nat}
    (hroom : ¬ Participates user room s) (amount : Money) :
    (call (transferForProductRoom p user room amount key) ids now s).1 ≠
      .error .transferUnavailable := by
  obtain ⟨ids', ⟨r, q, h⟩ | h⟩ := ends_storeDenial (d := validateBalancedJournal)
    (s := s) account key (canonicalRoomPayload room amount)
  · have hcall := call_ok (ends_roomTransfer_denied (p := p) haccount hkey hroom h)
      (validateBalancedJournal_same rfl rfl)
    rw [transferForProductRoom, hcall]
    exact fun hc => nomatch hc
  · have hcall := call_error (ends_roomTransfer_denied (p := p) haccount hkey hroom h)
    rw [transferForProductRoom, hcall]
    exact fun hc => nomatch hc

/-! ## `close_account` -/

/-- The row of the safety state, locked. -/
theorem ends_safetyForUpdate {t : TransferSafetyState} (ht : s.safety = some t) :
    Ends d safetyForUpdate ids s now start (.ok (t, false)) ids id := by
  refine ends_getOrCreate_found ?_
  have h : Ends d (firstForUpdate .safety (fun s => s.safety.toList) (fun _ => 1)
      fun _ => true) ids s now start (.ok (s.safety.toList.find? fun _ => true)) ids id :=
    ends_firstForUpdate _ _ _ _
  rw [ht] at h
  exact h

theorem ends_closeAccount_blocked (hblocked : Blocked s) (user : Nat) :
    Ends d (closeAccountBody user) ids s now start (.error .transferUnavailable) ids id := by
  obtain ⟨t, ht, hst⟩ := hblocked
  refine Ends.look (Ends.acquire _) (Ends.look (ends_safetyForUpdate ht) ?_)
  dsimp only
  refine Ends.bindError (Ends.raiseIf_true ?_)
  rw [hst]
  rfl

/-- **CLOSING**: it is refused. -/
theorem closeAccount_refused (hblocked : Blocked s) (user : Nat) :
    call (closeAccount user) ids now s = (.error .transferUnavailable, s) :=
  call_error (ends_closeAccount_blocked hblocked user)

/-! ## `withdraw_account` -/

/-- Every open account is still there, and open. -/
def ClosesNothing (s s' : Store) : Prop :=
  ∀ a ∈ s.accounts, a.isOpen = true → ∃ a' ∈ s'.accounts, a'.pk = a.pk ∧ a'.isOpen = true

theorem ClosesNothing.same {s s' : Store} (h : s'.accounts = s.accounts) :
    ClosesNothing s s' := by
  intro a ha hopen
  rw [← h] at ha
  exact ⟨a, ha, rfl, hopen⟩

theorem closesNothing_closeIfOpen {a : MockAccount} {at' : Time} {s' : Store}
    (hs : s'.accounts = (closeIfOpen a at' s).accounts) (hopen : a.isOpen = false) :
    ClosesNothing s s' := by
  refine ClosesNothing.same (hs.trans ?_)
  rw [closeIfOpen, hopen, if_neg Bool.false_ne_true]

theorem closes_closeIfOpen {a : MockAccount} {at' : Time} {s' : Store}
    (hs : s'.accounts = (closeIfOpen a at' s).accounts) (ha : a ∈ s.accounts)
    (hopen : a.isOpen = true) : ¬ ClosesNothing s s' := by
  intro h
  obtain ⟨a', ha', hpk, hopen'⟩ := h a ha hopen
  rw [hs, closeIfOpen, hopen, if_pos rfl] at ha'
  obtain ⟨b, -, hb⟩ := List.mem_map.mp ha'
  -- the row is the closed one, or it is of another account
  by_cases hpk' : b.pk = a.pk
  · rw [if_pos hpk'] at hb
    rw [← hb] at hopen'
    exact Bool.false_ne_true hopen'
  · rw [if_neg hpk'] at hb
    rw [hb] at hpk'
    exact hpk' hpk

/-- The open account of somebody who can withdraw now. -/
def WithdrawalOpen (s : Store) : Prop :=
  ∃ user password n u a, WithdrawalReady user password n s u a ∧ a.isOpen = true

/-- The call of `withdraw_account`, around what its body does. -/
theorem withdrawAccount_fails {user : Nat} {password : String}
    (h : Fails validateBalancedJournal (withdrawAccountBody user password) ids s now now) :
    (call (withdrawAccount user password) ids now s).2 = s := by
  obtain ⟨e, ids', g, h⟩ := h
  cases hdb : e.isDatabaseError || e == .doesNotExist .user
      || e == .doesNotExist .revocationTask with
  | true =>
      have hcall := call_tryCatch_error (f := fun e =>
        if e.isDatabaseError || e == .doesNotExist .user
            || e == .doesNotExist .revocationTask then
          raise (.withdrawalUnavailable "회원 탈퇴 권위를 확인할 수 없습니다.")
        else raise e) h (if_pos hdb)
      exact congrArg Prod.snd hcall
  | false =>
      have hcall := call_tryCatch_error (f := fun e =>
        if e.isDatabaseError || e == .doesNotExist .user
            || e == .doesNotExist .revocationTask then
          raise (.withdrawalUnavailable "회원 탈퇴 권위를 확인할 수 없습니다.")
        else raise e) h (if_neg (by rw [hdb]; exact Bool.false_ne_true))
      exact congrArg Prod.snd hcall

theorem withdrawAccount_answers {user : Nat} {password : String} {r : WithdrawalResult}
    {ids' : Nat → Nat} {g : Store → Store}
    (h : Ends validateBalancedJournal (withdrawAccountBody user password) ids s now now
      (.ok r) ids' g) (hj : (g s).journals = s.journals) (he : (g s).entries = s.entries) :
    (call (withdrawAccount user password) ids now s).2 = g s :=
  congrArg Prod.snd (call_tryCatch_ok h (validateBalancedJournal_same hj he))

/-- **WITHDRAWAL**: it closes the open account of whoever can withdraw. -/
theorem withdrawAccount_closes {user : Nat} {password : String} {u : User}
    {a : MockAccount} (h : WithdrawalReady user password (ids 0) s u a)
    (hopen : a.isOpen = true) :
    ¬ ClosesNothing s (call (withdrawAccount user password) ids now s).2 := by
  obtain ⟨r, ids', g, hends, haccounts, hj, he⟩ :=
    ends_withdrawAccountBody (d := validateBalancedJournal) ids now now h
  rw [withdrawAccount_answers hends hj he]
  exact closes_closeIfOpen haccounts (List.mem_of_find?_eq_some h.scope.account) hopen

theorem withdrawAccount_closesNothing (h : ¬ WithdrawalOpen s) (user : Nat)
    (password : String) :
    ClosesNothing s (call (withdrawAccount user password) ids now s).2 := by
  by_cases hready : ∃ u a, WithdrawalReady user password (ids 0) s u a
  · obtain ⟨u, a, hready⟩ := hready
    have hclosed : a.isOpen = false :=
      Bool.eq_false_iff.mpr fun hopen => h ⟨user, password, _, u, a, hready, hopen⟩
    obtain ⟨r, ids', g, hends, haccounts, hj, he⟩ :=
      ends_withdrawAccountBody (d := validateBalancedJournal) ids now now
        hready
    rw [withdrawAccount_answers hends hj he]
    exact closesNothing_closeIfOpen haccounts hclosed
  · rcases withdrawAccountBody_else (d := validateBalancedJournal) ids now now hready with
      hfails | ⟨r, hends⟩
    · rw [withdrawAccount_fails hfails]
      exact ClosesNothing.same rfl
    · rw [withdrawAccount_answers hends rfl rfl]
      exact ClosesNothing.same rfl

/-! ## Every entry point -/

/-- The entry points agree under `BLOCKED`: both transfers refuse and change nothing,
    and no call of any user closes an account. -/
structure HonoursBlocked (p : Platform) (user : Nat) (name : String) (room : Nat)
    (amount : Money) (key : Uuid) (now : Time) (s : Store) : Prop where
  transfer : ∀ ids, call (transfer p user name amount key none) ids now s =
    (.error .transferUnavailable, s)
  room : ∀ ids, call (transferForProductRoom p user room amount key) ids now s =
    (.error .transferUnavailable, s)
  closing : ∀ ids user, ClosesNothing s (call (closeAccount user) ids now s).2
  withdrawal : ∀ ids user password,
    ClosesNothing s (call (withdrawAccount user password) ids now s).2

/-- A sender without an account is told so, before anything else. -/
theorem transfer_without_account {user : Nat} (h : senderOf user s = none)
    (name : String) (amount : Money) (key : Uuid) :
    (call (transfer p user name amount key none) ids now s).1 ≠
      .error .transferUnavailable := by
  have hcall : call (transfer p user name amount key none) ids now s =
      (.error (.doesNotExist .mockAccount), s) :=
    call_tryCatch_error (Ends.bindError (ends_getRow_none h)) rfl
  rw [hcall]
  exact fun hc => nomatch hc

/-- Under `BLOCKED` a key without a stored request is refused everywhere, and no account
    is closed, exactly when the sender has an account and is a party of the product
    room, and nobody who can withdraw has an open account. -/
theorem honoursBlocked_iff (p : Platform) (user : Nat) (name : String) (room : Nat)
    (amount : Money) (key : Uuid) (now : Time) (s : Store) (hblocked : Blocked s)
    (hkey : ∀ account, senderOf user s = some account →
      requestOf account.pk key s = none) :
    HonoursBlocked p user name room amount key now s ↔
      senderOf user s ≠ none ∧ Participates user room s ∧ ¬ WithdrawalOpen s := by
  cases haccount : senderOf user s with
  | none =>
      constructor
      · intro h
        exact absurd (congrArg Prod.fst (h.transfer id))
          (transfer_without_account haccount name amount key)
      · exact fun h => absurd rfl h.1
  | some account =>
      have hkey := hkey account haccount
      constructor
      · intro h
        refine ⟨Option.some_ne_none _, ?_, ?_⟩
        · by_contra hroom
          exact absurd (congrArg Prod.fst (h.room id))
            (roomTransfer_not_refused haccount hkey hroom amount)
        · rintro ⟨user, password, n, u, a, hready, hopen⟩
          exact withdrawAccount_closes hready hopen (h.withdrawal (fun _ => n) user password)
      · rintro ⟨-, hroom, hwithdrawal⟩
        refine ⟨fun ids => ?_, fun ids => ?_, fun ids user => ?_, fun ids user password => ?_⟩
        · exact transfer_refused hblocked haccount hkey name amount
        · exact roomTransfer_refused hblocked haccount hkey hroom amount
        · rw [closeAccount_refused hblocked user]
          exact ClosesNothing.same rfl
        · exact withdrawAccount_closesNothing hwithdrawal user password

/-- Blocked; user 1 has the seed money, user 2 an empty account and a password. -/
def blockedStore : Store where
  users := [{ pk := 1, username := "alice" },
    { pk := 2, username := "bob", password := some "correct horse" }]
  accounts := [{ pk := 1, user := 1, balance := SEED_AMOUNT },
    { pk := 2, user := 2, balance := 0 }]
  ledgerAccounts := [{ pk := 1, kind := .user, mockAccount := some 1, code := "USER:1" },
    { pk := 2, kind := .user, mockAccount := some 2, code := "USER:2" }]
  safety := some { state := .blocked, incidentId := some 7, blockedAt := some 3 }

theorem honoursBlocked_iff_blockedStore :
    HonoursBlocked plainPlatform 1 "bob" 9 100 5 4 blockedStore ↔
      senderOf 1 blockedStore ≠ none ∧ Participates 1 9 blockedStore ∧
        ¬ WithdrawalOpen blockedStore :=
  honoursBlocked_iff plainPlatform 1 "bob" 9 100 5 4 blockedStore
    ⟨_, rfl, rfl⟩ fun _ _ => rfl

/-- A room that is not there is answered and the answer stored; an open account is
    closed by a withdrawal. -/
theorem blockedStore_not_honoured :
    Blocked blockedStore ∧ senderOf 1 blockedStore = some ⟨1, 1, SEED_AMOUNT, true, none⟩ ∧
      requestOf 1 5 blockedStore = none ∧
      ((call (transferForProductRoom plainPlatform 1 9 100 5) (· + 1) 4
        blockedStore).2.requests.map (·.responseStatus)) = [422] ∧
      ((call (withdrawAccount 2 "correct horse") (· + 1) 4
        blockedStore).2.accounts.map (·.isOpen)) = [true, false] ∧
      ¬ HonoursBlocked plainPlatform 1 "bob" 9 100 5 4 blockedStore := by
  refine ⟨⟨_, rfl, rfl⟩, rfl, rfl, rfl, rfl, fun h => ?_⟩
  have hroom := congrArg (fun x => x.2.requests.length) (h.room (· + 1))
  exact absurd hroom (by decide)

end Market
