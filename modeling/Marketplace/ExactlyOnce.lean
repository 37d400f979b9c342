import Marketplace.SafetyRuns

/-! # A transfer happens at most once

    Any number of calls of both endpoints, with whatever arguments, among any other
    transactions that follow the locking rules and leave requests and transfers
    alone.  The first commit for a key stores its request; from then on every call
    with the key answers from that request and changes nothing. -/

namespace Market

open TxnProgram TxnInterleaving TxnLogic TxnProtection TxnSoundness TxnBody TxnFrames
  TxnSchedule

variable {p : Platform} {Γ : Ctx Store Lock Exn Obs} {w w' : World Store Lock Obs}
  {s s' : Store}

/-! ## Calls -/

/-- The endpoint that is called: with a name, or in a room. -/
inductive Endpoint where
  | direct (recipientName : String)
  | room (room : Nat)

/-- A call with its arguments. -/
structure TransferCall where
  user : Nat
  key : Uuid
  amount : Money
  endpoint : Endpoint

namespace TransferCall

/-- The canonical payload of a call. -/
def payload (x : TransferCall) : String :=
  match x.endpoint with
  | .direct recipientName => canonicalPayload recipientName x.amount
  | .room room => canonicalRoomPayload room x.amount

def run (p : Platform) (x : TransferCall) : M TransferResult :=
  match x.endpoint with
  | .direct recipientName => transfer p x.user recipientName x.amount x.key none
  | .room room => transferForProductRoom p x.user room x.amount x.key

def toCall (x : TransferCall) : Call := ⟨x.user, x.amount, x.key, x.payload⟩

end TransferCall

/-- A call of either kind, with what it commits. -/
theorem wp_call (hA : Abides p Γ) (x : TransferCall) (hcommit : Commits p x.toCall Γ)
    (hi : Idle w) :
    wp Γ (x.run p) (CallPost p x.toCall (commitsOf w.sess.hist)) w := by
  obtain ⟨user, key, amount, endpoint⟩ := x
  cases endpoint with
  | direct recipientName => exact wp_transfer hA hcommit rfl hi
  | room room => exact wp_transferForProductRoom hA hcommit rfl hi

/-! ## A key that is stored -/

/-- The requests of a sender and a key. -/
def requestsOf (sender : Nat) (key : Uuid) (s : Store) : List TransferRequest :=
  s.requests.filter fun r => r.sender == sender && r.idempotencyKey == key

/-- The transfers of a sender and a key. -/
def transfersOf (sender : Nat) (key : Uuid) (s : Store) : List Transfer :=
  s.transfers.filter fun t => (requestsOf sender key s).any (·.transfer == some t.pk)

/-- The request of a key is the first one with the key. -/
theorem head_requestsOf (sender : Nat) (key : Uuid) (s : Store) :
    (requestsOf sender key s).head? = requestOf sender key s := List.head?_filter

/-- The request of a key stays that. -/
theorem requestOf_keeps {sender : Nat} {key : Uuid} {r : TransferRequest}
    (h : requestOf sender key s = some r) (hk : Keeps s s') :
    requestOf sender key s' = some r := by
  obtain ⟨rest, hrest⟩ := hk.requests
  rw [requestOf] at h
  rw [requestOf, ← hrest, List.find?_append, h]
  rfl

/-- A key that is taken stays taken. -/
theorem requestsOf_keeps {sender : Nat} {key : Uuid} (h : requestsOf sender key s ≠ [])
    (hk : Keeps s s') : requestsOf sender key s' ≠ [] := by
  obtain ⟨rest, hrest⟩ := hk.requests
  rw [requestsOf, ← hrest, List.filter_append]
  exact fun e => h (List.append_eq_nil_iff.mp e).1

/-- The rows that satisfy more, when the first that satisfies `q` satisfies it too. -/
theorem find?_and {ρ : Type} {q q' : ρ → Bool} {r : ρ} {rows : List ρ}
    (h : rows.find? q = some r) (hr : q' r = true) :
    rows.find? (fun x => q x && q' x) = some r := by
  induction rows with
  | nil => exact nomatch h
  | cons x rows ih =>
      rw [List.find?_cons] at h ⊢
      cases hx : q x with
      | true =>
          rw [hx] at h
          cases h
          rw [hr]
          rfl
      | false =>
          rw [hx] at h
          exact ih h

/-- `.first()` of a locking query for a row that is, and stays, the first. -/
theorem look_firstForUpdate_of {ρ : Type} {F : Exn → Prop} (hΓ : Lawful Γ)
    (hF : Faults Γ F) {t : Table} {rows : Store → List ρ} {pk : ρ → Nat} {q : ρ → Bool}
    {r : ρ} (h : ∀ w', Still Γ w w' → (rows w'.view).find? q = some r) :
    Look Γ (firstForUpdate t rows pk q) w (fun a _ => a = some r) F := by
  refine Look.bind hΓ (look_selectForUpdate hΓ hF t rows pk q) fun found w1 h1 hfound =>
    Look.ret hΓ ?_
  obtain ⟨w0, h0, -, hresult⟩ := hfound.result
  rw [hresult, List.head?_filter]
  refine find?_and (h w1 h1) (List.contains_iff_mem.mpr ?_)
  have hmem := h w0 h0
  exact List.mem_map.mpr ⟨r, List.mem_filter.mpr
    ⟨List.mem_of_find?_eq_some hmem, List.find?_some hmem⟩, rfl⟩

/-- `.get()` of a row that is, and stays, there. -/
theorem look_getRow_of {ρ : Type} {F : Exn → Prop} (hΓ : Lawful Γ) (hF : Faults Γ F)
    {t : Table} {q : Store → Option ρ} {P : ρ → Prop}
    (h : ∀ w', Still Γ w w' → ∃ r, q w'.view = some r ∧ P r) :
    Look Γ (getRow t q) w (fun r _ => P r) F := by
  refine Look.bind hΓ (look_fetch hF q) fun found w1 h1 hfound => ?_
  obtain ⟨r, hr, hp⟩ := h w1 h1
  rw [hfound, hr]
  exact Look.ret hΓ hp

/-! ## A later call -/

/-- The answer from a stored request. -/
def replayOf (r : TransferRequest) : TransferResult :=
  { status := r.responseStatus, body := r.responseBody, replayed := true }

/-- The database failed, or it failed until the retries were used up. -/
def Failed (Γ : Ctx Store Lock Exn Obs) (e : Exn) : Prop :=
  (∃ e', Γ.fault e') ∧ (e = .transferUnavailable ∨ Γ.fault e)

/-- The errors of a call with a stored key. -/
def Refused (Γ : Ctx Store Lock Exn Obs) (payload : String) (r : TransferRequest)
    (e : Exn) : Prop :=
  (e = .idempotencyConflict ∧ payload ≠ r.canonicalPayload) ∨ Failed Γ e

/-- A call may always be refused by the database. -/
theorem refused_faults {payload : String} {r : TransferRequest} :
    Faults Γ (Refused Γ payload r) := fun e h => Or.inr ⟨⟨e, h⟩, Or.inr h⟩

/-- The key of the call is stored. -/
structure KeyStored (x : TransferCall) (sender : Nat) (r : TransferRequest) (s : Store) :
    Prop where
  sends : SendsFrom x.user sender s
  request : requestOf sender x.key s = some r

/-- A stored answer stays stored. -/
theorem KeyStored.keeps {x : TransferCall} {sender : Nat} {r : TransferRequest}
    (h : KeyStored x sender r s) (hk : Keeps s s') : KeyStored x sender r s' :=
  ⟨h.sends.keeps hk, requestOf_keeps h.request hk⟩

section Later

variable {x : TransferCall} {sender : Nat} {r : TransferRequest}

/-- What the answer to a call with a stored key is. -/
def Replays (x : TransferCall) (r : TransferRequest) (res : TransferResult) : Prop :=
  res = replayOf r ∧ x.payload = r.canonicalPayload

/-- The replay compares the payload, and answers what was stored. -/
theorem look_replay (hΓ : Lawful Γ) :
    Look Γ (replay r x.payload) w (fun res _ => Replays x r res)
      (Refused Γ x.payload r) := by
  by_cases hne : (r.canonicalPayload != x.payload) = true
  · rw [replay, if_pos hne]
    exact Look.raise hΓ (Or.inl ⟨rfl, fun e => (bne_iff_ne.mp hne) e.symm⟩)
  · rw [replay, if_neg hne]
    refine Look.ret hΓ ⟨rfl, ?_⟩
    rw [Bool.not_eq_true, bne_eq_false_iff_eq] at hne
    exact hne.symm

/-- What both endpoints do first: the sender, the lock of the key, the request. -/
theorem look_storedRequest (hA : Abides p Γ) (hpend : w.sess.pend = id)
    (h : KeyStored x sender r w.db) :
    Look Γ (getRow .mockAccount fun s => s.accounts.find? (·.user == x.user)) w
      (fun a _ => a.pk = sender) (Refused Γ x.payload r) := by
  refine look_getRow_of hA.lawful refused_faults fun w1 h1 => ?_
  have hview : w1.view = w1.db := by
    rw [h1.view, hpend]
    rfl
  have hs := h.sends.keeps (hA.keeps h1.toNear)
  rw [hview]
  cases hfind : w1.db.accounts.find? (·.user == x.user) with
  | some a => exact ⟨a, rfl, (sendsFrom_of_find hfind).unique hs⟩
  | none =>
      have hmap : (w1.db.accounts.map MockAccount.identity).find? (·.2 == x.user) =
          (w1.db.accounts.find? (·.user == x.user)).map MockAccount.identity :=
        List.find?_map ..
      rw [SendsFrom, hmap, hfind] at hs
      cases hs

/-- The request of the key is found. -/
theorem look_previous (hA : Abides p Γ) (hpend : w.sess.pend = id)
    (h : KeyStored x sender r w.db) :
    Look Γ (firstForUpdate .request (·.requests) (·.pk) fun q =>
        q.sender == sender && q.idempotencyKey == x.key) w
      (fun a _ => a = some r) (Refused Γ x.payload r) := by
  refine look_firstForUpdate_of hA.lawful refused_faults fun w1 h1 => ?_
  have hview : w1.view = w1.db := by
    rw [h1.view, hpend]
    rfl
  rw [hview]
  exact (h.keeps (hA.keeps h1.toNear)).request

/-- A transfer with a taken key only reads. -/
theorem look_executeOnce_stored (hA : Abides p Γ) (hpend : w.sess.pend = id)
    (h : KeyStored x sender r w.db) {name : String}
    (hpayload : canonicalPayload name x.amount = x.payload) :
    Look Γ (executeOnceBody p x.user name x.amount x.key none) w
      (fun res _ => Replays x r res) (Refused Γ x.payload r) := by
  have hΓ := hA.lawful
  refine Look.bind hΓ (look_storedRequest hA hpend h) fun a w1 h1 ha => ?_
  refine Look.bind hΓ (Look.acquire refused_faults _) fun _ w2 h2 _ => ?_
  refine Look.bind hΓ (Look.acquire refused_faults _) fun _ w3 h3 _ => ?_
  have h13 : Still Γ w w3 := h1.trans hΓ (h2.trans hΓ h3)
  rw [ha]
  refine Look.bind hΓ (look_previous hA (h13.pend.trans hpend)
    (h.keeps (hA.keeps h13.toNear))) fun previous w4 _ hprevious => ?_
  rw [hprevious]
  show Look Γ (replay r (canonicalPayload name x.amount)) w4 _ _
  rw [hpayload]
  exact look_replay hΓ

/-- So does one in a room. -/
theorem look_room_stored (hA : Abides p Γ) (hpend : w.sess.pend = id)
    (h : KeyStored x sender r w.db) {room : Nat}
    (hpayload : canonicalRoomPayload room x.amount = x.payload) :
    Look Γ (transferForProductRoomBody p x.user room x.amount x.key) w
      (fun res _ => Replays x r res) (Refused Γ x.payload r) := by
  have hΓ := hA.lawful
  refine Look.bind hΓ (look_storedRequest hA hpend h) fun a w1 h1 ha => ?_
  refine Look.bind hΓ (Look.acquire refused_faults _) fun _ w2 h2 _ => ?_
  have h12 : Still Γ w w2 := h1.trans hΓ h2
  rw [ha]
  refine Look.bind hΓ (look_previous hA (h12.pend.trans hpend)
    (h.keeps (hA.keeps h12.toNear))) fun previous w3 _ hprevious => ?_
  rw [hprevious]
  show Look Γ (replay r (canonicalRoomPayload room x.amount)) w3 _ _
  rw [hpayload]
  exact look_replay hΓ

/-- How a call with a stored key leaves its session, started on the store `s0`. -/
def LaterPost (Γ : Ctx Store Lock Exn Obs) (x : TransferCall) (r : TransferRequest)
    (s0 : Store) (before : List (Store × Store)) (res : Except Exn TransferResult)
    (w' : World Store Lock Obs) : Prop :=
  Idle w' ∧ Γ.rely [] s0 w'.db ∧ match res with
  | .ok res => Replays x r res ∧ ∃ s, commitsOf w'.sess.hist = (s, s) :: before
  | .error e => Refused Γ x.payload r e ∧ commitsOf w'.sess.hist = before

/-- Nothing is committed by a transaction that only looks. -/
theorem wp_later (hA : Abides p Γ) (hcommit : Commits p x.toCall Γ) {m : M TransferResult}
    (hi : Idle w) {s0 : Store} (hs0 : KeyStored x sender r s0) (h0 : Γ.rely [] s0 w.db)
    (hm : ∀ w', w'.sess.pend = id → KeyStored x sender r w'.db →
      Look Γ m w' (fun res _ => Replays x r res) (Refused Γ x.payload r)) :
    wp Γ (atomic m) (LaterPost Γ x r s0 (commitsOf w.sess.hist)) w := by
  have hΓ := hA.lawful
  have hbegin : ∀ w', Env Γ w w' → w'.begin.sess.pend = id := fun w' he => by
    rw [World.begin_pend, he.sess]
    exact hi.pend
  have hrely : ∀ held s s', Γ.rely held s s' → Γ.rely [] s s' :=
    fun held s s' => hΓ.anti _ _ _ _ fun _ hl => nomatch hl
  have hkeep : ∀ s', Γ.rely [] s0 s' → KeyStored x sender r s' :=
    fun s' h => hs0.keeps (hA.rely _ _ _ h).1
  refine wp_transaction hΓ (F := Refused Γ x.payload r)
    (P := fun w' res w1 => Replays x r res ∧ w1.sess.pend = id) hi (fun w' he => ?_)
    refused_faults (fun e w3 hf hidle hc h => ⟨hidle, hΓ.trans _ _ _ _ h0 h, hf, hc⟩) ?_
  · have hstored : KeyStored x sender r w'.db :=
      hkeep _ (hΓ.trans _ _ _ _ h0 (hrely _ _ _ he.db))
    exact ((hm _ (hbegin w' he) hstored).mono fun res w1 h1 hres =>
      ⟨hres, h1.pend.trans (hbegin w' he)⟩).body hΓ
  · intro w' res w1 w2 he hw ⟨hres, hpend⟩ he2 hleave
    have hpend2 : w2.sess.pend = id := by
      rw [he2.sess]
      exact hpend
    have hview : w2.view = w2.db := by
      rw [World.view, hpend2]
      rfl
    have hsame : Γ.deferred w2.db w2.view = none := by
      rw [hA.deferred, hview]
      exact validateBalancedJournal_same rfl rfl
    refine ⟨fun _ => ⟨?_, publish_idle w2, ?_, hres, w2.db, ?_⟩, fun e he => ?_⟩
    · refine hcommit res _ _ _ hleave ⟨id, CallEnd.of_exec (.replayed ?_), hview⟩
      rw [hres.1]
      rfl
    · show Γ.rely [] s0 w2.view
      rw [hview]
      exact hΓ.trans _ _ _ _ h0 (hΓ.trans _ _ _ _ (hrely _ _ _ he.db)
        (hΓ.trans _ _ _ _ (hrely _ _ _ hw.db) (hrely _ _ _ he2.db)))
    · show (w2.db, w2.view) :: commitsOf w2.sess.hist = _
      rw [hview, he2.sess, hw.commits, World.begin_hist, he.sess]
    · rw [hsame] at he
      cases he

/-- The retries of `transfer` with a stored key. -/
theorem wp_attempts_later {once : M TransferResult} {s0 : Store}
    {before : List (Store × Store)}
    (honce : ∀ w, Idle w → Γ.rely [] s0 w.db → commitsOf w.sess.hist = before →
      wp Γ once (LaterPost Γ x r s0 before) w) (left : Nat) :
    ∀ w, Idle w → Γ.rely [] s0 w.db → commitsOf w.sess.hist = before →
      wp Γ (attempts once left) (LaterPost Γ x r s0 before) w := by
  -- an error that may be tried again is one of the database
  have failed : ∀ {sqlstate}, Refused Γ x.payload r (.operationalError sqlstate) →
      Refused Γ x.payload r .transferUnavailable := by
    rintro sqlstate (⟨h, -⟩ | h)
    · exact nomatch h
    · exact Or.inr ⟨h.1, Or.inl rfl⟩
  induction left with
  | zero =>
      intro w hi hs hb
      refine wp_tryCatch (wp_mono ?_ (honce w hi hs hb))
      rintro (e | res) w1 h
      · show wp Γ _ _ w1
        cases e with
        | operationalError sqlstate =>
            dsimp only
            cases retryable sqlstate with
            | false => exact h
            | true => exact ⟨h.1, h.2.1, failed h.2.2.1, h.2.2.2⟩
        | _ => exact h
      · exact h
  | succ left ih =>
      intro w hi hs hb
      refine wp_tryCatch (wp_mono ?_ (honce w hi hs hb))
      rintro (e | res) w1 h
      · show wp Γ _ _ w1
        cases e with
        | operationalError sqlstate =>
            dsimp only
            cases retryable sqlstate with
            | false => exact h
            | true => exact ih w1 h.1 h.2.1 h.2.2.2
        | _ => exact h
      · exact h

/-- **LATER CALL**: it answers from the request, or refuses another payload; what it
    commits changes nothing. -/
theorem wp_call_later (hA : Abides p Γ) (hcommit : Commits p x.toCall Γ) (hi : Idle w)
    (h : KeyStored x sender r w.db) :
    wp Γ (x.run p) (LaterPost Γ x r w.db (commitsOf w.sess.hist)) w := by
  have hrefl := hA.lawful.refl [] w.db
  obtain ⟨user, key, amount, endpoint⟩ := x
  cases endpoint with
  | direct recipientName =>
      refine wp_attempts_later (fun w1 hi1 h1 hb => ?_) 3 w hi hrefl rfl
      have hwp := wp_later hA hcommit (m := executeOnceBody p user recipientName amount key
        none) hi1 h h1 fun w' hpend hs => look_executeOnce_stored hA hpend hs rfl
      rw [hb] at hwp
      exact hwp
  | room room =>
      exact wp_later hA hcommit hi h hrefl fun w' hpend hs => look_room_stored hA hpend hs rfl

/-- A program that has the database to itself. -/
theorem alone_abides (p : Platform) :
    Abides p (alone (L := Lock) (V := Obs) validateBalancedJournal) where
  lawful := alone_lawful _
  rely held s s' h := by
    rw [show s' = s from h]
    exact ⟨Keeps.refl s, fun l _ => (marketDiscipline_lawful p).same_refl l s⟩
  leave _ _ _ _ := trivial
  deferred := rfl

/-- **LATER CALL, ALONE**: nothing but the stored answer or the conflict. -/
theorem call_later (h : KeyStored x sender r s) (ids : Nat → Nat) (now : Time) :
    call (x.run p) ids now s =
      (if x.payload = r.canonicalPayload then .ok (replayOf r)
        else .error .idempotencyConflict, s) := by
  have hpost := run_sound ids (wp_call_later (alone_abides p) (w := ⟨s, now, {}⟩)
    (fun _ _ _ _ _ _ => trivial) ⟨rfl, rfl, rfl⟩ h)
  rw [call]
  cases hrun : (x.run p).run validateBalancedJournal ids ⟨s, now, {}⟩ with
  | mk res w' =>
      rw [hrun] at hpost
      obtain ⟨-, hdb, hres⟩ := hpost
      have hdb : w'.db = s := hdb
      cases res with
      | ok res =>
          obtain ⟨⟨rfl, hpayload⟩, -⟩ := hres
          rw [if_pos hpayload, hdb]
      | error e =>
          rcases hres.1 with ⟨rfl, hpayload⟩ | hfault
          · rw [if_neg hpayload, hdb]
          · exact hfault.1.elim fun _ hf => False.elim hf

end Later

/-! ## What one call commits -/

/-- A request for a key that had none. -/
structure NewRequest (x : TransferCall) (s : Store) (q : TransferRequest) : Prop where
  key : q.idempotencyKey = x.key
  payload : q.canonicalPayload = x.payload
  sends : SendsFrom x.user q.sender s
  free : requestsOf q.sender x.key s = []

/-- What a commit of a call does: nothing, store a denial, or store a request with its
    one transfer, one debit, and at most one pair of notifications. -/
inductive CallCommit (x : TransferCall) (s s' : Store) : Prop where
  | nothing : s' = s → CallCommit x s s'
  | denied (q : TransferRequest) : NewRequest x s q → q.transfer = none →
      s' = addRequest q s → CallCommit x s s'
  | completed (m : Movement) (notes : List Notification) : NewRequest x s m.request →
      m.request.sender = m.sender.pk → m.request.transfer = some m.transfer →
      m.amount = x.amount → m.sender ∈ s.accounts → notes.length ≤ 2 →
      s' = addNotifications notes (m.apply s) → CallCommit x s s'

/-- A request that is ready is a new one of its key. -/
theorem RequestReady.newRequest {x : TransferCall} {held : List Lock} {q : TransferRequest}
    (h : RequestReady p x.toCall held s q) : NewRequest x s q where
  key := h.key
  payload := h.payload
  sends := h.owner
  free := by
    refine List.filter_eq_nil_iff.mpr fun r hr hq => ?_
    exact List.any_eq_false.mp h.free r hr hq

/-- Whatever a call commits is one of its own steps. -/
theorem TransferStep.callCommit {x : TransferCall} {r : TransferResult} {held : List Lock}
    (h : TransferStep p x.toCall r held s s') : CallCommit x s s' := by
  obtain ⟨g, ⟨f, notes, hexec, hlen, rfl⟩, rfl⟩ := h
  have hnone : r.notices = 0 → ∀ s : Store, addNotifications notes s = s := fun hr s => by
    rw [hr] at hlen
    rw [List.length_eq_zero_iff.mp (Nat.le_zero.mp hlen)]
    exact addNotifications_nil s
  have htwo : r.notices ≤ 2 := by
    rw [TransferResult.notices]
    split <;> omega
  cases hexec with
  | replayed hr =>
      refine .nothing (hnone ?_ s)
      rw [TransferResult.notices, hr, Bool.not_true, Bool.and_false]
      rfl
  | denied q hq hd hr =>
      refine .denied q hq.newRequest hd.transfer (hnone ?_ _)
      rw [hr, TransferResult.notices, hd.status]
      rfl
  | moved m hm hr =>
      exact .completed m notes hm.request.newRequest hm.requestSender hm.transfer hm.amount
        hm.senderRow (Nat.le_trans hlen htwo) rfl

/-- The rows of requests and transfers that a movement adds. -/
theorem Movement.apply_rows (m : Movement) (s : Store) :
    (m.apply s).requests = s.requests ++ [m.request] ∧
      (m.apply s).transfers = s.transfers ++
        [{ pk := m.transfer, sender := m.sender.pk, recipient := m.recipient.pk,
           journal := m.journal, amount := m.amount }] := by
  constructor <;>
    simp only [Movement.apply, addTransferAudit, addRequest, addTransfer, addEntries,
      addJournal, setBalance, updateAccount]

/-- A commit that changes anything stores the key. -/
theorem CallCommit.stores {x : TransferCall} (h : CallCommit x s s') (hne : s ≠ s') :
    ∃ q, NewRequest x s q ∧ s'.requests = s.requests ++ [q] := by
  cases h with
  | nothing he => exact absurd he.symm hne
  | denied q hq _ he =>
      rw [he]
      exact ⟨q, hq, rfl⟩
  | completed m notes hq _ _ _ _ _ he =>
      rw [he]
      exact ⟨m.request, hq, (m.apply_rows s).1⟩

/-! ## At most one -/

/-- The keys that the database keeps unique. -/
structure Keyed (s : Store) : Prop where
  requests : ∀ sender key, (requestsOf sender key s).length ≤ 1
  transfers : (s.transfers.map (·.pk)).Nodup

/-- A request counts for its own key only. -/
theorem requestsOf_append {q : TransferRequest} (hs : s'.requests = s.requests ++ [q])
    (sender : Nat) (key : Uuid) :
    requestsOf sender key s' = requestsOf sender key s ++
      if q.sender == sender && q.idempotencyKey == key then [q] else [] := by
  rw [requestsOf, hs, List.filter_append, List.filter_cons, List.filter_nil, requestsOf]

/-- One request more, under a key that had none. -/
theorem NewRequest.keyed {x : TransferCall} {q : TransferRequest} (hq : NewRequest x s q)
    (hs : s'.requests = s.requests ++ [q])
    (h : ∀ sender key, (requestsOf sender key s).length ≤ 1) (sender : Nat) (key : Uuid) :
    (requestsOf sender key s').length ≤ 1 := by
  rw [requestsOf_append hs]
  split
  · rename_i heq
    rw [Bool.and_eq_true, beq_iff_eq, beq_iff_eq, hq.key] at heq
    rw [← heq.1, ← heq.2, hq.free]
    exact Nat.le_refl 1
  · rw [List.append_nil]
    exact h sender key

/-- What a call commits keeps the keys unique. -/
theorem Keyed.call {x : TransferCall} {r : TransferResult} {held : List Lock}
    (hk : Keyed s) (h : TransferStep p x.toCall r held s s') : Keyed s' := by
  obtain ⟨g, ⟨f, notes, hexec, -, rfl⟩, rfl⟩ := h
  cases hexec with
  | replayed _ => exact ⟨hk.requests, hk.transfers⟩
  | denied q hq _ _ => exact ⟨hq.newRequest.keyed rfl hk.requests, hk.transfers⟩
  | moved m hm _ =>
      obtain ⟨hrequests, htransfers⟩ := m.apply_rows s
      refine ⟨hm.request.newRequest.keyed hrequests hk.requests, ?_⟩
      show ((m.apply s).transfers.map _).Nodup
      rw [htransfers, List.map_append, List.nodup_append]
      refine ⟨hk.transfers, List.nodup_singleton _, ?_⟩
      rintro _ hx _ hy rfl
      obtain ⟨t, ht, hpk⟩ := List.mem_map.mp hx
      exact List.any_eq_false.mp hm.transferFree t ht
        (beq_iff_eq.mpr (hpk.trans (List.mem_singleton.mp hy)))

/-- The transfers of a key are those of its one request. -/
theorem Keyed.transfersOf (hk : Keyed s) (sender : Nat) (key : Uuid) :
    (transfersOf sender key s).length ≤ 1 := by
  have hkeys : ((Market.transfersOf sender key s).map (·.pk)).Nodup :=
    (List.filter_sublist.map _).nodup hk.transfers
  have hone := hk.requests sender key
  have hof : ∀ t ∈ Market.transfersOf sender key s,
      ∃ r ∈ requestsOf sender key s, r.transfer = some t.pk := fun t ht => by
    obtain ⟨r, hr, hrt⟩ := List.any_eq_true.mp (List.mem_filter.mp ht).2
    exact ⟨r, hr, eq_of_beq hrt⟩
  cases hfirst : (Market.transfersOf sender key s).head? with
  | none =>
      rw [List.head?_eq_none_iff.mp hfirst]
      exact Nat.zero_le 1
  | some t =>
      obtain ⟨r, hr, hrt⟩ := hof t (List.mem_of_mem_head? hfirst)
      refine length_le_one_of_key hkeys (k := t.pk) fun t' ht' => ?_
      obtain ⟨r', hr', hrt'⟩ := hof t' ht'
      -- both belong to the one request of the key
      have hsame : r' = r := by
        obtain ⟨x, hx⟩ := List.length_eq_one_iff.mp
          (Nat.le_antisymm hone (List.length_pos_of_mem hr))
        rw [hx, List.mem_singleton] at hr hr'
        exact hr'.trans hr.symm
      rw [hsame, hrt] at hrt'
      exact (Option.some.inj hrt').symm

/-! ## Calls among other transactions -/

/-- Requests and transfers are left alone. -/
structure RequestsQuiet (s s' : Store) : Prop where
  requests : s'.requests = s.requests
  transfers : s'.transfers = s.transfers

/-- Any transactions that follow the locking rules and leave requests and transfers
    alone. -/
def Foreign (p : Platform) (m : M Unit) : Prop :=
  Top (market p ⟨fun _ _ => True, fun _ => RequestsQuiet⟩ (fun _ _ _ => True)
    (fun _ _ _ => True)) m

/-- What a session runs: a call, or something else. -/
inductive SharedOp (p : Platform) where
  | call (x : TransferCall)
  | other (m : M Unit) (h : Foreign p m)

section Others

/-- The context of the other transactions. -/
theorem foreign_abides (p : Platform) : Abides p (market p
    ⟨fun _ _ => True, fun _ => RequestsQuiet⟩ (fun _ _ _ => True) (fun _ _ _ => True)) :=
  market_abides ⟨fun _ => trivial, fun _ _ _ _ _ => trivial⟩ fun _ _ => trivial

/-- To leave the requests alone is a relation of steps. -/
theorem requestsQuiet_composes : Composes RequestsQuiet :=
  ⟨fun _ => ⟨rfl, rfl⟩,
    fun _ _ _ h h' => ⟨h'.requests.trans h.requests, h'.transfers.trans h.transfers⟩⟩

/-- Balances may change in any way. -/
theorem foreign_setBalance (n : Nat) (b : Money) :
    Foreign p (atomic (updateRows .mockAccount [n] (setBalance n b))) := by
  have hA := foreign_abides p
  refine Top.atomicFramed (W := RequestsQuiet) hA.lawful
    (safe_updateRows hA.lawful fun held hrow s => ?_)
    (safe_updateRows (frame_lawful _ requestsQuiet_composes) fun _ _ _ => ⟨rfl, rfl⟩)
    fun _ _ _ hleave h => ⟨hleave.1, hleave.2, h⟩
  exact hA.leave _ _ _ (respects_updateAccount (fun _ => rfl) (hrow n List.mem_cons_self))

/-- Accounts may be closed. -/
theorem foreign_closeAccount (user : Nat) :
    Foreign p (do let _ ← closeAccount user; return ()) := by
  refine Top.bind (top_closeAccount (foreign_abides p) fun r held s f hleave h =>
    ⟨hleave.1, hleave.2, ?_⟩) fun _ => Top.ret ()
  cases h with
  | already new => cases new <;> exact ⟨rfl, rfl⟩
  | closed new a now _ => cases new <;> exact ⟨rfl, rfl⟩

/-- The ledger may be blocked. -/
theorem foreign_blockLedger (verdict : List String → Bool) :
    Foreign p (do let _ ← blockLedger verdict; return ()) :=
  Top.bind (top_safetyOnly (foreign_abides p) requestsQuiet_composes
    (fun _ _ => ⟨rfl, rfl⟩) (fun _ _ _ hleave h => ⟨hleave.1, hleave.2, h⟩)
    fun _ hΓ' hmay => safe_blockLedgerBody hΓ' hmay verdict) fun _ => Top.ret ()

/-- And opened again. -/
theorem foreign_handle (resume : Option String) (currentRole expectedRole : String) :
    Foreign p (do let _ ← handle p resume currentRole expectedRole; return ()) :=
  Top.bind (top_safetyOnly (foreign_abides p) requestsQuiet_composes
    (fun _ _ => ⟨rfl, rfl⟩) (fun _ _ _ hleave h => ⟨hleave.1, hleave.2, h⟩)
    fun _ hΓ' hmay => safe_handleBody hΓ' hmay resume currentRole expectedRole)
    fun _ => Top.ret ()

end Others

namespace SharedOp

def run : SharedOp p → M (Option TransferResult)
  | .call x => do
      let r ← x.run p
      return some r
  | .other m _ => do
      m
      return none

/-- What the commits of a session are. -/
def role : SharedOp p → Role Store Lock
  | .call x => ⟨fun _ _ => True, fun held s s' => ∃ r, TransferStep p x.toCall r held s s'⟩
  | .other _ _ => ⟨fun _ _ => True, fun _ => RequestsQuiet⟩

/-- Each role composes. -/
theorem role_lawful (op : SharedOp p) : op.role.Lawful := by
  cases op <;> exact ⟨fun _ => trivial, fun _ _ _ _ _ => trivial⟩

def ctx (op : SharedOp p) : Ctx Store Lock Exn Obs :=
  market p op.role (fun _ _ _ => True) (fun _ _ _ => True)

theorem ctx_abides (op : SharedOp p) : Abides p op.ctx := by
  cases op with
  | call x => exact market_abides (role_lawful (.call x)) fun _ _ => trivial
  | other m h => exact market_abides (role_lawful (.other m h)) fun _ _ => trivial

/-- A call may commit what it does. -/
theorem commits (x : TransferCall) : Commits p x.toCall (ctx (p := p) (.call x)) :=
  fun r _ _ _ hleave h => ⟨hleave.1, hleave.2, r, h⟩

/-- How a session is left: idle, and a call that raised without a commit. -/
def post (op : SharedOp p) (r : Except Exn (Option TransferResult))
    (w : World Store Lock Obs) : Prop :=
  Idle w ∧ ∀ x, op = .call x → ∀ e, r = .error e → commitsOf w.sess.hist = []

/-- **OPERATIONS**, each in its role. -/
theorem wp_run (op : SharedOp p) (hi : Idle w) (hnone : commitsOf w.sess.hist = []) :
    wp op.ctx op.run op.post w := by
  cases op with
  | call x =>
      refine wp_bind (wp_mono ?_ (wp_call (ctx_abides (.call x)) x (commits x) hi))
      rintro (e | r) w1 ⟨hidle, hc⟩
      · refine ⟨hidle, fun _ _ _ _ => ?_⟩
        rw [← hnone]
        exact hc
      · exact ⟨hidle, fun _ _ _ h => nomatch h⟩
  | other m h =>
      refine wp_bind (wp_mono ?_ (h w hi))
      rintro (e | r) w1 hidle
      · exact ⟨hidle, fun _ hop => nomatch hop⟩
      · exact ⟨hidle, fun _ hop => nomatch hop⟩

end SharedOp

/-! ## Every run -/

section Runs

variable {ι : Type} {ops : ι → SharedOp p} {now : Time}
  {c c' : Config ι Store Lock Exn Obs (Option TransferResult)}

/-- What the commits of the calls have been so far. -/
structure OnceInv (ops : ι → SharedOp p)
    (c : Config ι Store Lock Exn Obs (Option TransferResult)) : Prop where
  keyed : Keyed c.db
  commits : ∀ i x, ops i = .call x → ∀ e ∈ commitsOf (c.sess i).hist, CallCommit x e.1 e.2
  stored : ∀ i x, ops i = .call x → ∀ e ∈ commitsOf (c.sess i).hist, e.1 ≠ e.2 →
    ∃ sender, SendsFrom x.user sender c.db ∧ requestsOf sender x.key c.db ≠ []
  once : ∀ i j x y, ops i = .call x → ops j = .call y → x.user = y.user → x.key = y.key →
    ∀ e ∈ commitsOf (c.sess i).hist, ∀ e' ∈ commitsOf (c.sess j).hist,
      e.1 ≠ e.2 → e'.1 ≠ e'.2 → i = j ∧ e = e'

/-- A keyed store begins with no call's commit. -/
theorem OnceInv.start (h : Keyed s) : OnceInv ops (Config.start s now fun i => (ops i).run) where
  keyed := h
  commits _ _ _ _ he := nomatch he
  stored _ _ _ _ he := nomatch he
  once _ _ _ _ _ _ _ _ _ he := nomatch he

/-- A step without a commit. -/
theorem OnceInv.same (h : OnceInv ops c) (hdb : c'.db = c.db)
    (hc : ∀ j, commitsOf (c'.sess j).hist = commitsOf (c.sess j).hist) : OnceInv ops c' where
  keyed := by rw [hdb]; exact h.keyed
  commits i x hop := by rw [hc]; exact h.commits i x hop
  stored i x hop := by rw [hc, hdb]; exact h.stored i x hop
  once i j x y hx hy := by rw [hc, hc]; exact h.once i j x y hx hy

theorem shared_fits : Fits (postgres fun _ _ => False) fun i => (ops i).ctx :=
  market_fits p (fun i => (ops i).role) (fun i => (ops i).role_lawful) _ _

variable [DecidableEq ι]

/-- **STEP**: what a commit of session `i` does to the history. -/
theorem OnceInv.commit (h : OnceInv ops c) {i : ι} (hkeep : Keeps c.db c'.db)
    (hkeyed : Keyed c'.db)
    (hcall : ∀ x, ops i = .call x → CallCommit x c.db c'.db)
    (hi : commitsOf (c'.sess i).hist = (c.db, c'.db) :: commitsOf (c.sess i).hist)
    (hother : ∀ j, j ≠ i → commitsOf (c'.sess j).hist = commitsOf (c.sess j).hist) :
    OnceInv ops c' := by
  have hmem : ∀ j e, e ∈ commitsOf (c'.sess j).hist →
      e ∈ commitsOf (c.sess j).hist ∨ (j = i ∧ e = (c.db, c'.db)) := by
    intro j e he
    by_cases hj : j = i
    · subst hj
      rw [hi] at he
      rcases List.mem_cons.mp he with rfl | he
      · exact Or.inr ⟨rfl, rfl⟩
      · exact Or.inl he
    · rw [hother j hj] at he
      exact Or.inl he
  -- an earlier commit for the key would have left the request that is not there
  have hfirst : ∀ x j y, ops i = .call x → ops j = .call y → x.user = y.user →
      x.key = y.key → c.db ≠ c'.db → ∀ e ∈ commitsOf (c.sess j).hist, e.1 = e.2 := by
    intro x j y hx hy huser hkey hne e he
    by_contra hchange
    obtain ⟨q, hq, -⟩ := (hcall x hx).stores hne
    obtain ⟨sender, hsends, hstored⟩ := h.stored j y hy e he hchange
    rw [← huser] at hsends
    rw [← hkey, hsends.unique hq.sends] at hstored
    exact hstored hq.free
  exact {
    keyed := hkeyed
    commits := fun j x hop e he => by
      rcases hmem j e he with he | ⟨rfl, rfl⟩
      · exact h.commits j x hop e he
      · exact hcall x hop
    stored := fun j x hop e he hne => by
      rcases hmem j e he with he | ⟨rfl, rfl⟩
      · obtain ⟨sender, hsends, hstored⟩ := h.stored j x hop e he hne
        exact ⟨sender, hsends.keeps hkeep, requestsOf_keeps hstored hkeep⟩
      · obtain ⟨q, hq, hrequests⟩ := (hcall x hop).stores hne
        refine ⟨q.sender, hq.sends.keeps hkeep, ?_⟩
        rw [requestsOf_append hrequests, hq.free, hq.key, beq_self_eq_true,
          beq_self_eq_true]
        exact List.cons_ne_nil _ _
    once := fun j k x y hx hy huser hkey e he e' he' hne hne' => by
      rcases hmem j e he with hj | ⟨rfl, rfl⟩
      · rcases hmem k e' he' with hk | ⟨rfl, rfl⟩
        · exact h.once j k x y hx hy huser hkey e hj e' hk hne hne'
        · exact absurd (hfirst y j x hy hx huser.symm hkey.symm hne' e hj) hne
      · rcases hmem k e' he' with hk | ⟨rfl, rfl⟩
        · exact absurd (hfirst x k y hx hy huser hkey hne e' hk) hne'
        · exact ⟨rfl, rfl⟩ }

/-- Every reached configuration is one of correct sessions. -/
theorem supported_shared (hr : Reached s now (fun i => (ops i).run) c) :
    LocksApart (postgres fun _ _ => False) c ∧
      Supported (fun i => (ops i).ctx) (fun i => (ops i).post) c ∧
      AllSee (fun i => (ops i).ctx.shown) c :=
  sound shared_fits hr (locksApart_start _ s now _)
    (supported_start shared_fits.lawful fun i => (ops i).wp_run ⟨rfl, rfl, rfl⟩ rfl)
    (fun _ _ _ _ h => nomatch h) (fun _ _ _ _ _ => trivial)

/-- What a session may commit keeps the keys unique, and is what a call does. -/
theorem SharedOp.guaranteed {op : SharedOp p} {held : List Lock}
    (hg : op.ctx.guar held s s') (hk : Keyed s) :
    Keeps s s' ∧ Keyed s' ∧ ∀ x, op = .call x → CallCommit x s s' := by
  cases op with
  | call x =>
      obtain ⟨r, hstep⟩ := hg.2.2
      refine ⟨hg.1.1, hk.call hstep, fun y hy => ?_⟩
      cases hy
      exact hstep.callCommit
  | other m h =>
      have hq : RequestsQuiet s s' := hg.2.2
      refine ⟨hg.1.1, ⟨fun sender key => ?_, ?_⟩, fun _ hy => nomatch hy⟩
      · rw [requestsOf, hq.requests]
        exact hk.requests sender key
      · rw [hq.transfers]
        exact hk.transfers

/-- **RUN**: the history of every configuration reached. -/
theorem onceInv_reached (h0 : Keyed s) (hr : Reached s now (fun i => (ops i).run) c) :
    OnceInv ops c := by
  induction hr with
  | refl => exact OnceInv.start h0
  | tail hr hs ih =>
      obtain ⟨who, hs⟩ := hs
      obtain ⟨-, hsup, hshown⟩ := supported_shared hr
      cases who with
      | none =>
          refine ih.same ?_ fun j => commits_other hs fun h => nomatch h
          cases hs with
          | tick _ t ht => rfl
          | env _ s he => exact False.elim he
      | some i =>
          have hother := fun j (hj : j ≠ i) =>
            commits_other hs fun h => hj (Option.some.inj h).symm
          rcases commits_step hs i with ⟨hdb, hc⟩ | ⟨-, hc⟩
          · refine ih.same (hdb rfl) fun j => ?_
            by_cases hj : j = i
            · rw [hj]
              exact hc
            · exact hother j hj
          · rcases guar_of_step shared_fits hs hsup hshown (fun _ _ _ _ _ => trivial) with
              hdb | hg
            · -- a commit that published what was there
              refine ih.commit ?_ ?_ (fun x _ => .nothing hdb) hc hother
              · rw [hdb]
                exact Keeps.refl _
              · rw [hdb]
                exact ih.keyed
            · obtain ⟨hkeep, hkeyed, hcall⟩ := SharedOp.guaranteed hg ih.keyed
              exact ih.commit hkeep hkeyed hcall hc hother

/-! ## Later calls -/

/-- A session that has not begun. -/
def Fresh (ops : ι → SharedOp p) (i : ι)
    (c : Config ι Store Lock Exn Obs (Option TransferResult)) : Prop :=
  c.prog i = (ops i).run ∧ c.sess i = {}

/-- What a call that began with a stored key has come to. -/
structure Later (x : TransferCall) (r : TransferRequest) (i : ι)
    (c : Config ι Store Lock Exn Obs (Option TransferResult)) : Prop where
  commits : ∀ e ∈ commitsOf (c.sess i).hist, e.1 = e.2
  answer : ∀ res, c.prog i = .ret res →
    res = some (replayOf r) ∧ x.payload = r.canonicalPayload
  error : ∀ e, c.prog i = .raise e →
    (e = .idempotencyConflict ∧ x.payload ≠ r.canonicalPayload) ∨
      e = .transferUnavailable ∨ ∃ sqlstate, e = .operationalError sqlstate

/-- How the session of such a call is left. -/
def laterPost (x : TransferCall) (r : TransferRequest)
    (res : Except Exn (Option TransferResult)) (w : World Store Lock Obs) : Prop :=
  (∀ e ∈ commitsOf w.sess.hist, e.1 = e.2) ∧ match res with
  | .ok res => res = some (replayOf r) ∧ x.payload = r.canonicalPayload
  | .error e => (e = .idempotencyConflict ∧ x.payload ≠ r.canonicalPayload) ∨
      e = .transferUnavailable ∨ ∃ sqlstate, e = .operationalError sqlstate

/-- A call whose key is stored only reads. -/
theorem wp_run_later {x : TransferCall} {sender : Nat} {r : TransferRequest}
    (h : KeyStored x sender r w.db) (hi : Idle w) (hnone : commitsOf w.sess.hist = []) :
    wp (SharedOp.ctx (p := p) (.call x)) (SharedOp.run (p := p) (.call x))
      (laterPost x r) w := by
  refine wp_bind (wp_mono ?_ (wp_call_later (SharedOp.ctx_abides (.call x))
    (SharedOp.commits x) hi h))
  rintro (e | res) w1 ⟨-, -, hres⟩
  · refine ⟨fun e he => ?_, ?_⟩
    · rw [hres.2, hnone] at he
      exact nomatch he
    · rcases hres.1 with hconflict | ⟨-, hfailed⟩
      · exact Or.inl hconflict
      · exact Or.inr hfailed
  · obtain ⟨⟨rfl, hpayload⟩, s, hc⟩ := hres
    refine ⟨fun e he => ?_, rfl, hpayload⟩
    rw [hc, hnone, List.mem_singleton] at he
    rw [he]

/-- A commit of a call with a stored key changes nothing. -/
theorem CallCommit.of_stored {x : TransferCall} {sender : Nat} {r : TransferRequest}
    (h : CallCommit x s s') (hs : KeyStored x sender r s) : s = s' := by
  by_contra hne
  obtain ⟨q, hq, -⟩ := h.stores hne
  have hhead := head_requestsOf sender x.key s
  rw [hs.sends.unique hq.sends, hq.free, ← hs.sends.unique hq.sends, hs.request] at hhead
  exact nomatch hhead

/-- A stored answer stays stored in every run. -/
theorem keyStored_reached (hr : Reached s now (fun i => (ops i).run) c) {x : TransferCall}
    {sender : Nat} {r : TransferRequest} (h : KeyStored x sender r c.db)
    (hc : Reaches (postgres fun _ _ => False) c c') : KeyStored x sender r c'.db := by
  obtain ⟨hapart, hsup, hshown⟩ := supported_shared hr
  exact store_invariant shared_fits (fun _ _ _ h => False.elim h)
    (fun _ _ _ _ hk hg => hk.keeps hg.1.1) hc hapart hsup hshown
    (fun _ _ _ _ _ => trivial) h

/-- **LATER CALLS** in any interleaving. -/
theorem later_reached (h0 : Keyed s) (hr : Reached s now (fun i => (ops i).run) c)
    {x : TransferCall} {sender : Nat} {r : TransferRequest}
    (h : KeyStored x sender r c.db) {i : ι} (hop : ops i = .call x) (hfresh : Fresh ops i c)
    (hc : Reaches (postgres fun _ _ => False) c c') : Later x r i c' := by
  have hnone : commitsOf (c.sess i).hist = [] := by
    rw [hfresh.2]
    rfl
  -- the same run, with what is known of the session of the call
  obtain ⟨hapart, hsup, hshown⟩ := supported_shared hr
  have hsup' : Supported (fun j => (ops j).ctx) (fun j res w => j = i → laterPost x r res w)
      c := by
    intro j
    by_cases hj : j = i
    · subst hj
      have hidle : Idle (c.world j) := by
        rw [Config.world, hfresh.2]
        exact ⟨rfl, rfl, rfl⟩
      refine ⟨c.world j, Env.refl (shared_fits.lawful j) _, ?_⟩
      have hwp := wp_run_later (p := p) (w := c.world j) h hidle hnone
      show wp (ops j).ctx (c.prog j) _ _
      rw [hfresh.1, hop]
      exact wp_mono (fun _ _ hpost _ => hpost) hwp
    · obtain ⟨w, he, hwp⟩ := hsup j
      exact ⟨w, he, wp_mono (fun _ _ _ e => absurd e hj) hwp⟩
  obtain ⟨-, hsup2, -⟩ := sound shared_fits hc hapart hsup' hshown fun _ _ _ _ _ => trivial
  obtain ⟨w, he, hwp⟩ := hsup2 i
  refine ⟨fun e hmem => ?_, fun res hret => ?_, fun e hraise => ?_⟩
  · obtain ⟨d, d', hd, hstep, hafter, hdb, hdb'⟩ := commit_reached hc hnone hmem
    have hinv := onceInv_reached h0 (hr.trans (hd.step hstep))
    have hstored := keyStored_reached hr h hd
    rw [hdb] at hstored
    rcases commits_step hstep i with ⟨hsame, -⟩ | ⟨-, hevent⟩
    · rw [← hdb, ← hdb', hsame rfl]
    · refine (hinv.commits i x hop (e.1, e.2) ?_).of_stored hstored
      rw [hevent, hdb, hdb']
      exact List.mem_cons_self
  · rw [hret] at hwp
    exact (hwp rfl).2
  · rw [hraise] at hwp
    exact (hwp rfl).2

end Runs

/-- Exactly once, said of one configuration of a run. -/
structure ExactlyOnce {ι : Type} [DecidableEq ι] (ops : ι → SharedOp p)
    (c : Config ι Store Lock Exn Obs (Option TransferResult)) : Prop where
  requests : ∀ sender key, (requestsOf sender key c.db).length ≤ 1
  transfers : ∀ sender key, (transfersOf sender key c.db).length ≤ 1
  commits : ∀ i x, ops i = .call x → ∀ e ∈ commitsOf (c.sess i).hist, CallCommit x e.1 e.2
  once : ∀ i j x y, ops i = .call x → ops j = .call y → x.user = y.user → x.key = y.key →
    ∀ e ∈ commitsOf (c.sess i).hist, ∀ e' ∈ commitsOf (c.sess j).hist,
      e.1 ≠ e.2 → e'.1 ≠ e'.2 → i = j ∧ e = e'
  raised : ∀ i x e, ops i = .call x → c.prog i = .raise e → commitsOf (c.sess i).hist = []
  later : ∀ x sender r, KeyStored x sender r c.db →
    (∀ ids now, call (x.run p) ids now c.db =
      (if x.payload = r.canonicalPayload then .ok (replayOf r)
        else .error .idempotencyConflict, c.db)) ∧
    ∀ i c', ops i = .call x → Fresh ops i c → Reaches (postgres fun _ _ => False) c c' →
      Later x r i c'

/-- **EXACTLY ONCE**: in every interleaving of any number of calls of both endpoints
    with any other transactions, a key has at most one request and one transfer, at
    most one of its calls changes anything, a call that raised committed nothing, and
    a call that begins once the key is stored answers from it and changes nothing. -/
theorem transfers_exactly_once {ι : Type} [DecidableEq ι] (p : Platform)
    (ops : ι → SharedOp p) {s : Store} {now : Time} (h0 : Keyed s)
    {c : Config ι Store Lock Exn Obs (Option TransferResult)}
    (hr : Reached s now (fun i => (ops i).run) c) : ExactlyOnce ops c where
  requests := (onceInv_reached h0 hr).keyed.requests
  transfers := (onceInv_reached h0 hr).keyed.transfersOf
  commits := (onceInv_reached h0 hr).commits
  once := (onceInv_reached h0 hr).once
  raised i x e hop hraise := by
    obtain ⟨w, he, hwp⟩ := (supported_shared hr).2.1 i
    rw [hraise] at hwp
    have hhist : (c.sess i).hist = w.sess.hist := congrArg Session.hist he.sess
    rw [hhist]
    exact hwp.2 x hop e rfl
  later x sender r hstored :=
    ⟨call_later hstored, fun _ _ hop hfresh hc => later_reached h0 hr hstored hop hfresh hc⟩

/-- Two users with accounts that transfers may use. -/
def twoAccounts : Store where
  users := [{ pk := 1, username := "sender" }, { pk := 2, username := "recipient" }]
  accounts := [{ pk := 3, user := 1, balance := 5000 }, { pk := 4, user := 2, balance := 0 }]
  ledgerAccounts := [{ pk := 5, kind := .user, mockAccount := some 3, code := "USER:1" },
    { pk := 6, kind := .user, mockAccount := some 4, code := "USER:2" }]
  safety := some {}

/-- The store of the example has its keys. -/
theorem twoAccounts_keyed : Keyed twoAccounts :=
  ⟨fun _ _ => Nat.zero_le 1, List.nodup_nil⟩

/-- A transfer, and the same call again. -/
def transferTwice : Fin 2 → SharedOp plainPlatform :=
  fun _ => .call ⟨1, 9, 1000, .direct "recipient"⟩

/-- Both calls begin, one commits, and the other answers from the stored request. -/
theorem transfers_exactly_once_transferTwice :
    ∃ c : Config (Fin 2) Store Lock Exn Obs (Option TransferResult),
      Reached twoAccounts 0 (fun i => (transferTwice i).run) c ∧
        (c.db.accounts.map (·.balance), c.db.transfers.length, c.db.requests.length) =
          ([4000, 1000], 1, 1) ∧ ExactlyOnce transferTwice c := by
  have hplay : (play validateBalancedJournal [.run 1 2 id, .run 0 100 (fun k => 10 + k),
      .run 1 100 (fun k => 20 + k)]
      (Config.start twoAccounts 0 fun i => (transferTwice i).run)).map
        (fun d => (d.db.accounts.map (·.balance), d.db.transfers.length,
          d.db.requests.length)) = some ([4000, 1000], 1, 1) := by decide +kernel
  obtain ⟨c, hr, hb⟩ :=
    reaches_of_play (D := postgres fun _ _ => False) (f := fun d => _) hplay
  exact ⟨c, hr, hb, transfers_exactly_once plainPlatform transferTwice twoAccounts_keyed hr⟩

end Market
