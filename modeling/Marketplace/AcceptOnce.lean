import Marketplace.ChatAccess
import Marketplace.ChatPayload
import Marketplace.ChatRuns
import Marketplace.ManagementEffects

/-! # Messages are accepted once

    A sender names a message by a key of its own, and may send it again over any
    connection.  The row of the sender is locked while the key is looked up and until the
    message is committed, so that one call stores it; only that call goes on to publish it;
    and every later call finds it. -/

namespace Market

open TxnProgram TxnInterleaving TxnLogic TxnProtection TxnSoundness TxnBody TxnFrames
  TxnInvariants TxnMoments TxnSchedule

variable {p : Platform} {Γ : Ctx Store Lock Exn Obs} {w w' : World Store Lock Obs}
  {s s' : Store} {α : Type} {sha256 : String → String}

/-! ## What a call commits -/

/-- The messages of a key. -/
def messagesOf (room sender : Nat) (key : Uuid) (s : Store) : List ChatMessage :=
  s.messages.filter fun m => m.room == room && m.sender == sender && m.clientMessageId == key

/-- The notifications of an event. -/
def notesOf (recipient : Nat) (eventKey : String) (s : Store) : List Notification :=
  s.notifications.filter fun n => n.recipient == recipient && n.eventKey == eventKey

/-- What the commits of `accept` keep: users, products and rooms stay, notifications are
    added, and a key that has a message keeps it. -/
structure ChatGrows (s s' : Store) : Prop extends SameRooms s s' where
  notifications : s.notifications <+: s'.notifications
  messages : ∀ room sender key, messagesOf room sender key s ≠ [] →
    (messagesOf room sender key s').map ChatMessage.accepted =
      (messagesOf room sender key s).map ChatMessage.accepted

/-- To grow is a relation of steps. -/
theorem chatGrows_composes : Composes ChatGrows where
  refl s := ⟨SameRooms.refl s, List.prefix_rfl, fun _ _ _ _ => rfl⟩
  trans s s' s'' h h' := by
    refine ⟨h.toSameRooms.trans h'.toSameRooms, h.notifications.trans h'.notifications,
      fun room sender key hne => ?_⟩
    have hsame := h.messages room sender key hne
    have hne' : messagesOf room sender key s' ≠ [] := by
      intro hnil
      rw [hnil] at hsame
      exact hne (List.map_eq_nil_iff.mp hsame.symm)
    exact (h'.messages room sender key hne').trans hsame

/-- The counterparty is told of the message once: by a notification that was there, or by
    the one that comes with it. -/
def Tells (m : ChatMessage) (c : ProductConversation) (notes : List Notification) (s : Store) :
    Prop :=
  (notes = [] ∧ notesOf (c.recipient m.sender) (messageEventKey m.pk) s ≠ []) ∨
    ∃ n, notes = [n] ∧ n.recipient = c.recipient m.sender ∧ n.eventKey = messageEventKey m.pk ∧
      notesOf (c.recipient m.sender) (messageEventKey m.pk) s = []

/-- The commit of a new message. -/
structure Accepts (sha256 : String → String) (c : AcceptCall) (m : ChatMessage)
    (notes : List Notification) (s s' : Store) : Prop where
  room : m.room = c.room
  sender : m.sender = c.sender
  key : m.clientMessageId = c.clientMessageId
  body : normalizeChatText c.body = .ok m.body
  payload : m.payloadSha256 = sha256 (canonicalMessage m.room m.sender m.body)
  pkFree : m.pk ∉ s.messages.map (·.pk)
  keyFree : messagesOf m.room m.sender m.clientMessageId s = []
  told : ∃ r ∈ s.rooms, r.pk = m.room ∧ (r.kind = .product → ∃ x,
    s.conversations.find? (·.room == m.room) = some x ∧ Tells m x notes s) ∧
    (r.kind ≠ .product → notes = [])
  write : s' = addNotifications notes (addMessage m s)

/-- A free primary key is that of no message. -/
theorem not_mem_of_pk {n : Nat} (h : (Index.pk .message n).present s = false) :
    n ∉ s.messages.map (·.pk) := by
  intro hn
  obtain ⟨m, hm, rfl⟩ := List.mem_map.mp hn
  have hany : s.messages.any (fun x => x.pk == m.pk) = false := h
  rw [List.any_eq_false] at hany
  exact hany m hm (beq_self_eq_true _)

/-- A free key has no message. -/
theorem messagesOf_eq_nil {room sender : Nat} {key : Uuid}
    (h : (Index.clientMessage room sender key).present s = false) :
    messagesOf room sender key s = [] := by
  rw [messagesOf, List.filter_eq_nil_iff]
  exact List.any_eq_false.mp h

/-- A free event key has no notification. -/
theorem notesOf_eq_nil {recipient : Nat} {eventKey : String}
    (h : (Index.notification recipient eventKey).present s = false) :
    notesOf recipient eventKey s = [] := by
  rw [notesOf, List.filter_eq_nil_iff]
  exact List.any_eq_false.mp h

/-- A commit of `accept` is within `ChatGrows`. -/
def acceptCtx (p : Platform) : Ctx Store Lock Exn Obs :=
  along (market p ⟨fun _ _ => True, fun _ _ _ => True⟩ (fun _ _ _ => True) fun _ _ _ => True)
    ChatGrows

theorem acceptCtx_abides (p : Platform) : Abides p (acceptCtx p) where
  lawful := along_lawful (market_lawful p ⟨fun _ => trivial, fun _ _ _ _ _ => trivial⟩ _ _)
    chatGrows_composes
  rely _ _ _ h := h.1
  leave _ _ _ h := ⟨h, trivial⟩
  deferred := rfl

theorem acceptCtx_fits {ι : Type} (p : Platform) :
    Fits (postgres fun _ _ => False) (fun _ : ι => acceptCtx p) :=
  fits_along (market_fits p _ (fun _ => ⟨fun _ => trivial, fun _ _ _ _ _ => trivial⟩) _ _)
    chatGrows_composes fun _ _ h => False.elim h

/-- What grows may be committed. -/
theorem acceptCtx_guar {held : List Lock} (hleave : (acceptCtx p).leave held s s')
    (h : ChatGrows s s') : (acceptCtx p).guar held s s' :=
  ⟨⟨hleave.1, hleave.2, trivial⟩, h⟩

/-- A message counts for its own key only. -/
theorem addMessage_messagesOf (m : ChatMessage) (s : Store) (room sender : Nat) (key : Uuid) :
    messagesOf room sender key (addMessage m s) = messagesOf room sender key s ++
      if m.room = room ∧ m.sender = sender ∧ m.clientMessageId = key then [m] else [] := by
  rw [messagesOf, addMessage, List.filter_append, List.filter_cons, List.filter_nil]
  simp only [Bool.and_eq_true, beq_iff_eq, and_assoc]
  rfl

/-- To accept a message grows the chat. -/
theorem Accepts.grows {c : AcceptCall} {m : ChatMessage} {notes : List Notification}
    (h : Accepts sha256 c m notes s s') : ChatGrows s s' := by
  rw [h.write]
  refine ⟨⟨rfl, rfl, rfl, rfl, rfl⟩, List.prefix_append _ _, fun room sender key hne => ?_⟩
  show (messagesOf room sender key (addMessage m s)).map _ = _
  rw [addMessage_messagesOf, if_neg, List.append_nil]
  rintro ⟨rfl, rfl, rfl⟩
  exact hne h.keyFree

/-- The delivery changes no message of a key. -/
theorem setDelivery_messagesOf (n : Nat) (d : DeliveryState) (s : Store) (room sender : Nat)
    (key : Uuid) : (messagesOf room sender key (setDelivery n d s)).map ChatMessage.accepted =
      (messagesOf room sender key s).map ChatMessage.accepted := by
  rw [messagesOf, messagesOf, filter_accepted (fun _ => rfl), filter_accepted (fun _ => rfl),
    setDelivery_accepted]

/-- To set a delivery grows the chat by nothing. -/
theorem chatGrows_setDelivery (n : Nat) (d : DeliveryState) (s : Store) :
    ChatGrows s (setDelivery n d s) :=
  ⟨⟨rfl, rfl, rfl, rfl, rfl⟩, List.prefix_rfl, fun room sender key _ =>
    setDelivery_messagesOf n d s room sender key⟩

/-- **TRANSACTION**: a replay changes nothing, and a new message is accepted. -/
theorem AcceptEnd.accepts {c : AcceptCall} {body : String}
    {r : AcceptedMessage ⊕ ChatMessage} (hbody : normalizeChatText c.body = .ok body)
    (h : AcceptEnd (acceptCtx p)
      (c.submission body (sha256 (canonicalMessage c.room c.sender body)))
      r w) : (∃ a, r = .inl a ∧ w.view = w.db) ∨
        ∃ m notes, r = .inr m ∧ Accepts sha256 c m notes w.db w.view := by
  cases h with
  | replayed m _ _ _ _ _ hpend => exact Or.inl ⟨_, rfl, view_of_id hpend⟩
  | stored m room hs hpk hin ha =>
      obtain ⟨n, acceptedAt, hrow⟩ := hs.row
      have hroom : m.room = c.room := by rw [hrow]; rfl
      have hsender : m.sender = c.sender := by rw [hrow]; rfl
      have hkey : m.clientMessageId = c.clientMessageId := by rw [hrow]; rfl
      have hfree : messagesOf m.room m.sender m.clientMessageId w.db = [] := by
        rw [hroom, hsender, hkey]
        exact messagesOf_eq_nil hs.keyFree.free
      have hbody' : m.body = body := by rw [hrow]; rfl
      have hpayload : m.payloadSha256 = sha256 (canonicalMessage m.room m.sender m.body) := by
        rw [hroom, hsender, hbody', hrow]
        rfl
      -- what is said to the counterparty, by the kind of the room
      obtain ⟨notes, hwrites, htold⟩ : ∃ notes, (∀ s, w.sess.pend s =
          addNotifications notes (addMessage m s)) ∧
          ((room.kind = .product → ∃ x, w.db.conversations.find? (·.room == m.room) = some x ∧
            Tells m x notes w.db) ∧ (room.kind ≠ .product → notes = [])) := by
        generalize hf : w.sess.pend = f at ha
        cases ha with
        | silent hkind =>
            exact ⟨[], fun s => (addNotifications_nil _).symm, fun hc => absurd hc hkind,
              fun _ => rfl⟩
        | told x w1 w2 hkind hp hx h12 h2 hnoticed hf =>
            have hx' : w.db.conversations.find? (·.room == m.room) = some x := by
              rw [h2.db.2.conversations, h12.db.2.conversations]
              exact hx
            cases hnoticed with
            | found n s _ hlater hn hrec hev hpend =>
                refine ⟨[], fun s => ?_, fun _ => ⟨x, hx', Or.inl ⟨rfl, ?_⟩⟩,
                  fun hc => absurd hkind hc⟩
                · rw [← hf, hpend, hp]
                  exact (addNotifications_nil _).symm
                · rw [hp] at hn
                  have hdb : n ∈ w.db.notifications :=
                    h2.db.2.notifications.subset (hlater.2.notifications.subset hn)
                  have hmem : n ∈ notesOf (x.recipient m.sender) (messageEventKey m.pk) w.db := by
                    refine List.mem_filter.mpr ⟨hdb, ?_⟩
                    rw [hrec, hev, beq_self_eq_true, beq_self_eq_true]
                    rfl
                  exact List.ne_nil_of_mem hmem
            | created n s hrec hev _ _ _ hlater hheld hnone hpend =>
                refine ⟨[n], fun s => ?_, fun _ => ⟨x, hx', Or.inr ⟨n, rfl, hrec, hev, ?_⟩⟩,
                  fun hc => absurd hkind hc⟩
                · rw [← hf, hpend, hp]
                · rw [hp] at hnone
                  refine notesOf_eq_nil (h2.db.1.2 _ hheld ?_)
                  exact hlater.1.2 _ (List.mem_singleton.mpr rfl) hnone
      refine Or.inr ⟨m, notes, rfl, hroom, hsender, hkey, ?_, hpayload,
        not_mem_of_pk hs.pkFree.free, hfree, ⟨room, hin, hpk.trans hroom.symm, htold⟩, hwrites _⟩
      rw [hbody']
      exact hbody

/-! ## What a call has committed -/

/-- How far a call is, by its commits, newest first: the message that it has stored, and
    whether it has gone on to publish it. -/
inductive Progress (sha256 : String → String) (c : AcceptCall) :
    Option Nat → Bool → List (Store × Store) → Prop
  | idle : Progress sha256 c none false []
  | replayed (s : Store) : Progress sha256 c none false [(s, s)]
  | stored {m : ChatMessage} {notes : List Notification} {s s' : Store} :
      Accepts sha256 c m notes s s' → Progress sha256 c (some m.pk) false [(s, s')]
  | published {m : ChatMessage} {notes : List Notification} {s s' : Store} (a : Store) :
      Accepts sha256 c m notes s s' →
      Progress sha256 c (some m.pk) true [(a, addPublished m.pk a), (s, s')]
  | delivered {m : ChatMessage} {notes : List Notification} {s s' : Store} (a b : Store) :
      Accepts sha256 c m notes s s' → Progress sha256 c (some m.pk) true
        [(b, setDelivery m.pk .live b), (a, addPublished m.pk a), (s, s')]

/-- A history with some progress. -/
def Progresses (sha256 : String → String) (c : AcceptCall) (l : List (Store × Store)) : Prop :=
  ∃ message published, Progress sha256 c message published l

/-- Earlier commits of a call progress, too. -/
theorem Progresses.suffix {c : AcceptCall} {l l' : List (Store × Store)}
    (h : Progresses sha256 c l') (hsuffix : l <:+ l') : Progresses sha256 c l := by
  obtain ⟨message, published, h⟩ := h
  have hone : ∀ {e : Store × Store} {l : List (Store × Store)}, l <:+ [e] → l = [e] ∨ l = [] := by
    intro e l hl
    rcases List.suffix_cons_iff.mp hl with rfl | hl
    · exact Or.inl rfl
    · exact Or.inr (List.suffix_nil.mp hl)
  have hend : ∀ {m : ChatMessage} {notes : List Notification} {s s' : Store}
      {l : List (Store × Store)}, Accepts sha256 c m notes s s' → l <:+ [(s, s')] →
      Progresses sha256 c l := by
    intro m notes s s' l haccepts hl
    rcases hone hl with rfl | rfl
    · exact ⟨_, _, .stored haccepts⟩
    · exact ⟨_, _, .idle⟩
  cases h with
  | idle =>
      rw [List.suffix_nil.mp hsuffix]
      exact ⟨_, _, .idle⟩
  | replayed s =>
      rcases hone hsuffix with rfl | rfl
      · exact ⟨_, _, .replayed s⟩
      · exact ⟨_, _, .idle⟩
  | stored haccepts => exact hend haccepts hsuffix
  | published a haccepts =>
      rcases List.suffix_cons_iff.mp hsuffix with rfl | hsuffix
      · exact ⟨_, _, .published a haccepts⟩
      · exact hend haccepts hsuffix
  | delivered a b haccepts =>
      rcases List.suffix_cons_iff.mp hsuffix with rfl | hsuffix
      · exact ⟨_, _, .delivered a b haccepts⟩
      rcases List.suffix_cons_iff.mp hsuffix with rfl | hsuffix
      · exact ⟨_, _, .published a haccepts⟩
      · exact hend haccepts hsuffix

/-- The refusals of the chat. -/
inductive RefusesChat : Exn → Prop
  | conflict (t : String) : RefusesChat (.chatReplayConflict t)
  | limited (n : Nat) : RefusesChat (.chatRateLimited n)
  | unauthorized (t : String) : RefusesChat (.chatAuthorizationError t)
  | policy (t : String) : RefusesChat (.chatPolicyError t)

/-- A call that refuses has committed nothing. -/
def AcceptPost (sha256 : String → String) (c : AcceptCall) (r : Except Exn AcceptedMessage)
    (w : World Store Lock Obs) : Prop :=
  Progresses sha256 c (commitsOf w.sess.hist) ∧
    ∀ e, r = .error e → RefusesChat e → commitsOf w.sess.hist = []

/-- An answer without any statement. -/
theorem wp_ofAnswer {r : Except Exn α} {Q : Except Exn α → World Store Lock Obs → Prop}
    (h : Q r w) : wp Γ (Prog.ofAnswer r : M α) Q w := by
  cases r with
  | ok a => exact h
  | error e => exact h

/-- The deferred check refuses nobody in the chat. -/
theorem deferred_refuses {e : Exn} (h : validateBalancedJournal s s' = some e) :
    ¬ RefusesChat e := by
  intro hc
  rw [validateBalancedJournal] at h
  dsimp only at h
  split at h
  · cases h
  · cases h
    cases hc

/-- Nor does a fault of the database. -/
theorem fault_refuses {e : Exn} (h : (acceptCtx p).fault e) : ¬ RefusesChat e := by
  intro hc
  obtain ⟨sqlstate, rfl⟩ := h
  exact nomatch hc

/-- One statement in a transaction of its own, and what it leaves in the history. -/
theorem wp_atomicWrite {m : M α} {f : Store → Store} (hi : Idle w)
    (hbody : ∀ w : World Store Lock Obs, w.sess.pend = id →
      Body (acceptCtx p) m w (fun _ w' => w'.sess.pend = f) fun e => ¬ RefusesChat e)
    (hgrows : ∀ s, ChatGrows s (f s)) {Q : Except Exn α → World Store Lock Obs → Prop}
    (hok : ∀ a s w2, Idle w2 → commitsOf w2.sess.hist = (s, f s) :: commitsOf w.sess.hist →
      Q (.ok a) w2)
    (herr : ∀ e w2, ¬ RefusesChat e → Idle w2 →
      commitsOf w2.sess.hist = commitsOf w.sess.hist → Q (.error e) w2) :
    wp (acceptCtx p) (atomic m) Q w := by
  have hΓ := (acceptCtx_abides p).lawful
  refine wp_transaction (F := fun e => ¬ RefusesChat e) hΓ hi
    (fun w' he => hbody _ (begin_pend_id hi he)) (fun _ hf => fault_refuses hf)
    (fun e w3 he hidle hc _ => herr e w3 he hidle hc) fun w' a w1 w2 he hw hp he2 hleave => ?_
  have hview : w2.view = f w2.db := by
    rw [World.view, he2.sess, hp]
  have hc : commitsOf w2.sess.hist = commitsOf w.sess.hist := commits_transaction he hw he2
  refine ⟨fun _ => ⟨acceptCtx_guar hleave ?_, hok a w2.db _ (publish_idle w2) ?_⟩,
    fun e hd => deferred_refuses hd⟩
  · rw [hview]
    exact hgrows _
  · show (w2.db, w2.view) :: commitsOf w2.sess.hist = _
    rw [hview, hc]

/-- **AFTER THE COMMIT** of a new message: it is published once, or not at all. -/
theorem wp_deliver {c : AcceptCall} {m : ChatMessage} {notes : List Notification}
    (h : Accepts sha256 c m notes s s') (hi : Idle w)
    (hhist : commitsOf w.sess.hist = [(s, s')]) :
    wp (acceptCtx p) (deliver m) (AcceptPost sha256 c) w := by
  have hΓ := (acceptCtx_abides p).lawful
  have hstored : Progresses sha256 c [(s, s')] := ⟨_, _, .stored h⟩
  -- whether the publisher fails or not, the message has been committed
  have hpublish : wp (acceptCtx p) (publish m.pk) (fun r w' => Idle w' ∧ ∃ live, r = .ok live ∧
      ((∃ a, commitsOf w'.sess.hist = [(a, addPublished m.pk a), (s, s')]) ∨
        live = false ∧ commitsOf w'.sess.hist = [(s, s')])) w := by
    refine wp_tryCatch (wp_bind (wp_atomicWrite (f := addPublished m.pk) hi (fun w1 hp => ?_)
      (fun _ => ⟨⟨rfl, rfl, rfl, rfl, rfl⟩, List.prefix_rfl, fun _ _ _ _ => rfl⟩)
        (fun _ a w2 hidle hc => ?_)
      fun e w2 _ hidle hc => ?_))
    · refine Body.mono (Body.write hΓ (fun _ hf => fault_refuses hf) fun s =>
        (acceptCtx_abides p).leave _ _ _ respects_addPublished) fun _ w2 _ hpend => ?_
      rw [hpend, hp]
      rfl
    · refine wp_bind fun w3 he n => ⟨hidle.env he, _, rfl, Or.inl ⟨a, ?_⟩⟩
      rw [he.sess, hc, hhist]
    · exact ⟨hidle, false, rfl, Or.inr ⟨rfl, hc.trans hhist⟩⟩
  refine wp_bind (wp_mono ?_ hpublish)
  rintro (e | live) w1 ⟨hidle, live', hlive, hc⟩
  · exact nomatch hlive
  · cases hlive
    cases live with
    | false =>
        refine ⟨?_, fun e he => nomatch he⟩
        rcases hc with ⟨a, hc⟩ | ⟨-, hc⟩
        · rw [hc]
          exact ⟨_, _, .published a h⟩
        · rw [hc]
          exact hstored
    | true =>
        have hc : ∃ a, commitsOf w1.sess.hist = [(a, addPublished m.pk a), (s, s')] := by
          rcases hc with hc | ⟨hfalse, -⟩
          · exact hc
          · exact nomatch hfalse
        obtain ⟨a, hc⟩ := hc
        refine wp_bind (wp_atomicWrite (f := setDelivery m.pk .live) hidle (fun w2 hp => ?_)
          (chatGrows_setDelivery m.pk .live) (fun _ b w2 _ hc2 => ?_) fun e w2 he _ hc2 => ?_)
        · refine Body.mono (body_updateRows hΓ (fun _ hf => fault_refuses hf) fun _ _ _ s =>
            (acceptCtx_abides p).leave _ _ _ respects_setDelivery) fun _ w3 _ hpend => ?_
          rw [hpend.1, hp]
          rfl
        · refine ⟨?_, fun e he => nomatch he⟩
          rw [hc2, hc]
          exact ⟨_, _, .delivered a b h⟩
        · refine ⟨?_, fun e' he' hrefuses => ?_⟩
          · rw [hc2, hc]
            exact ⟨_, _, .published a h⟩
          · cases he'
            exact absurd hrefuses he

/-- **CALL**: one call of `accept` and its history. -/
theorem wp_accept (c : AcceptCall) (hi : Idle w) (hhist : commitsOf w.sess.hist = []) :
    wp (acceptCtx p) (c.run sha256) (AcceptPost sha256 c) w := by
  have hnone : ∀ r, AcceptPost sha256 c r w := fun r => ⟨by rw [hhist]; exact ⟨_, _, .idle⟩,
    fun _ _ _ => hhist⟩
  -- the checks before the transaction
  have check : ∀ {β : Type} (r : Except Exn β) (f : β → M AcceptedMessage),
      (∀ b, r = .ok b → wp (acceptCtx p) (f b) (AcceptPost sha256 c) w) →
      wp (acceptCtx p) (Prog.ofAnswer r >>= f) (AcceptPost sha256 c) w := by
    intro β r f hf
    refine wp_bind (wp_ofAnswer ?_)
    cases r with
    | ok b => exact hf b rfl
    | error e => exact hnone _
  refine check _ _ fun _ _ => check _ _ fun _ _ => check _ _ fun body hbody =>
    check _ _ fun hash hhash => ?_
  rw [canonicalPayloadSha256_eq (normalizeChatText_again hbody)] at hhash
  cases hhash
  refine wp_bind (wp_acceptTransaction (acceptCtx_abides p) (fun _ _ _ _ => trivial)
    (c.submission body _) hi (fun r w2 hc hleave hend => ?_) fun e w3 _ hc => ?_)
  · have hpublish : commitsOf w2.publish.sess.hist = [(w2.db, w2.view)] := by
      show (w2.db, w2.view) :: commitsOf w2.sess.hist = _
      rw [hc, hhist]
    rcases hend.accepts hbody with ⟨a, rfl, hview⟩ | ⟨m, notes, rfl, haccepts⟩
    · refine ⟨acceptCtx_guar hleave (hview ▸ chatGrows_composes.refl _), ?_, fun e he => nomatch he⟩
      rw [hpublish, hview]
      exact ⟨_, _, .replayed _⟩
    · exact ⟨acceptCtx_guar hleave haccepts.grows,
        wp_deliver haccepts (publish_idle w2) hpublish⟩
  · refine ⟨?_, fun _ _ _ => hc.trans hhist⟩
    rw [hc, hhist]
    exact ⟨_, _, .idle⟩

/-! ## Stores -/

/-- What every store that `accept` leaves is like. -/
structure ChatInv (sha256 : String → String) (s : Store) : Prop where
  users : UserKeys s
  rooms : (s.rooms.map (·.pk)).Nodup
  messages : (s.messages.map (·.pk)).Nodup
  keys : ∀ room sender key, (messagesOf room sender key s).length ≤ 1
  payloads : ∀ m ∈ s.messages, normalizeChatText m.body = .ok m.body ∧
    m.payloadSha256 = sha256 (canonicalMessage m.room m.sender m.body)
  notes : ∀ recipient eventKey, (notesOf recipient eventKey s).length ≤ 1
  told : ∀ m ∈ s.messages, ∀ r ∈ s.rooms, r.pk = m.room → r.kind = .product →
    ∃ x, s.conversations.find? (·.room == m.room) = some x ∧
      notesOf (x.recipient m.sender) (messageEventKey m.pk) s ≠ []
  attempted : ∀ n ∈ s.published, n ∈ s.messages.map (·.pk)
  published : s.published.Nodup

/-- A notice counts for its recipient and event. -/
theorem notesOf_addNotifications (notes : List Notification) (s : Store) (recipient : Nat)
    (eventKey : String) : notesOf recipient eventKey (addNotifications notes s) =
      notesOf recipient eventKey s ++
        notes.filter (fun n => n.recipient == recipient && n.eventKey == eventKey) :=
  List.filter_append ..

/-- **NEW MESSAGE**. -/
theorem ChatInv.accepts (h : ChatInv sha256 s) {c : AcceptCall} {m : ChatMessage}
    {notes : List Notification} (ha : Accepts sha256 c m notes s s') : ChatInv sha256 s' := by
  obtain ⟨room, hroom, hpk, htold, hsilent⟩ := ha.told
  have hbody : normalizeChatText m.body = .ok m.body := normalizeChatText_again ha.body
  rw [ha.write]
  refine ⟨h.users, h.rooms, ?_, fun r u k => ?_, fun x hx => ?_, fun recipient eventKey => ?_,
    fun x hx r hr hrpk hkind => ?_, fun n hn => ?_, h.published⟩
  · show ((s.messages ++ [m]).map (·.pk)).Nodup
    rw [List.map_append, List.nodup_append']
    refine ⟨h.messages, List.nodup_singleton _, fun n hn hn' => ha.pkFree ?_⟩
    have hpk' : n = m.pk := List.mem_singleton.mp hn'
    rw [← hpk']
    exact hn
  · show (messagesOf r u k (addMessage m s)).length ≤ 1
    rw [addMessage_messagesOf]
    split
    · next hkey =>
        obtain ⟨rfl, rfl, rfl⟩ := hkey
        rw [ha.keyFree]
        exact Nat.le_refl 1
    · rw [List.append_nil]
      exact h.keys r u k
  · rcases List.mem_append.mp hx with hx | hx
    · exact h.payloads x hx
    · rw [List.mem_singleton.mp hx]
      exact ⟨hbody, ha.payload⟩
  · rw [notesOf_addNotifications, List.length_append]
    have hold := h.notes recipient eventKey
    show (notesOf recipient eventKey s).length + _ ≤ 1
    by_cases hproduct : room.kind = .product
    · obtain ⟨x, -, htells⟩ := htold hproduct
      rcases htells with ⟨rfl, -⟩ | ⟨n, rfl, hrec, hev, hnone⟩
      · exact hold
      · rw [List.filter_cons, List.filter_nil]
        split
        · next hmatch =>
            -- the event had no notification yet
            rw [Bool.and_eq_true, beq_iff_eq, beq_iff_eq, hrec, hev] at hmatch
            rw [← hmatch.1, ← hmatch.2, hnone]
            exact Nat.le_refl 1
        · exact hold
    · rw [hsilent hproduct]
      exact hold
  · rcases List.mem_append.mp hx with hx | hx
    · obtain ⟨y, hy, hne⟩ := h.told x hx r hr hrpk hkind
      refine ⟨y, hy, ?_⟩
      rw [notesOf_addNotifications]
      exact List.append_ne_nil_of_left_ne_nil hne _
    · rw [List.mem_singleton.mp hx] at hrpk ⊢
      have hsame : r = room :=
        List.inj_on_of_nodup_map h.rooms hr hroom (hrpk.trans hpk.symm)
      rw [hsame] at hkind
      obtain ⟨y, hy, htells⟩ := htold hkind
      refine ⟨y, hy, ?_⟩
      rw [notesOf_addNotifications]
      rcases htells with ⟨-, hne⟩ | ⟨n, rfl, hrec, hev, -⟩
      · exact List.append_ne_nil_of_left_ne_nil hne _
      · refine List.append_ne_nil_of_right_ne_nil _ (List.ne_nil_of_mem (a := n) ?_)
        refine List.mem_filter.mpr ⟨List.mem_cons_self, ?_⟩
        rw [hrec, hev, beq_self_eq_true, beq_self_eq_true]
        rfl
  · show n ∈ (s.messages ++ [m]).map (·.pk)
    rw [List.map_append]
    exact List.mem_append_left _ (h.attempted n hn)

/-- **PUBLISHING** a stored message that was not published. -/
theorem ChatInv.publishes (h : ChatInv sha256 s) {n : Nat} (hn : n ∈ s.messages.map (·.pk))
    (hnew : n ∉ s.published) : ChatInv sha256 (addPublished n s) := by
  refine { h with attempted := fun x hx => ?_, published := ?_ }
  · rcases List.mem_append.mp hx with hx | hx
    · exact h.attempted x hx
    · rw [List.mem_singleton.mp hx]
      exact hn
  · refine List.nodup_append'.mpr ⟨h.published, List.nodup_singleton _, fun x hx hx' => hnew ?_⟩
    rw [← List.mem_singleton.mp hx']
    exact hx

/-- The delivery changes no key. -/
theorem setDelivery_pks (n : Nat) (d : DeliveryState) (s : Store) :
    (setDelivery n d s).messages.map (·.pk) = s.messages.map (·.pk) := by
  refine map_identity fun m => ?_
  split <;> rfl

/-- **DELIVERY** of a message. -/
theorem ChatInv.delivers (h : ChatInv sha256 s) (n : Nat) :
    ChatInv sha256 (setDelivery n .live s) := by
  -- a message is what it was, but for its delivery
  have hold : ∀ m ∈ (setDelivery n .live s).messages, ∃ x ∈ s.messages,
      x.accepted = m.accepted := by
    intro m hm
    obtain ⟨x, hx, rfl⟩ := List.mem_map.mp hm
    refine ⟨x, hx, ?_⟩
    split <;> rfl
  have hpks := setDelivery_pks n .live s
  refine ⟨h.users, h.rooms, hpks ▸ h.messages, fun r u k => ?_, fun m hm => ?_, h.notes,
    fun m hm r hr hrpk hkind => ?_, fun x hx => hpks ▸ h.attempted x hx, h.published⟩
  · have hlen := congrArg List.length (setDelivery_messagesOf n .live s r u k)
    rw [List.length_map, List.length_map] at hlen
    rw [hlen]
    exact h.keys r u k
  · obtain ⟨x, hx, hsame⟩ := hold m hm
    obtain ⟨hbody, hpayload⟩ := h.payloads x hx
    have hb : x.body = m.body := (congrArg ChatMessage.body hsame :)
    have hp : x.payloadSha256 = m.payloadSha256 := (congrArg ChatMessage.payloadSha256 hsame :)
    have hr : x.room = m.room := (congrArg ChatMessage.room hsame :)
    have hs : x.sender = m.sender := (congrArg ChatMessage.sender hsame :)
    rw [← hb, ← hp, ← hr, ← hs]
    exact ⟨hbody, hpayload⟩
  · obtain ⟨x, hx, hsame⟩ := hold m hm
    have hrm : x.room = m.room := (congrArg ChatMessage.room hsame :)
    have hs : x.sender = m.sender := (congrArg ChatMessage.sender hsame :)
    have hpk : x.pk = m.pk := (congrArg ChatMessage.pk hsame :)
    rw [← hrm, ← hs, ← hpk]
    exact h.told x hx r hr (hrpk.trans hrm.symm) hkind

/-! ## Later calls -/

/-- The one message of its key, and what makes the answer to its sender certain. -/
structure Kept (m : ChatMessage) (s : Store) : Prop where
  users : UserKeys s
  message : (messagesOf m.room m.sender m.clientMessageId s).map ChatMessage.accepted =
    [m.accepted]

/-- A message that is kept stays kept. -/
theorem Kept.grows {m : ChatMessage} (h : Kept m s) (hg : ChatGrows s s') : Kept m s' where
  users := by
    rw [UserKeys, hg.users]
    exact h.users
  message := by
    refine (hg.messages _ _ _ fun hnil => ?_).trans h.message
    have hone := h.message
    rw [hnil] at hone
    cases hone

/-- A stored message is kept. -/
theorem ChatInv.kept (h : ChatInv sha256 s) {m : ChatMessage} (hm : m ∈ s.messages) :
    Kept m s where
  users := h.users
  message := by
    have hmem : m ∈ messagesOf m.room m.sender m.clientMessageId s := by
      refine List.mem_filter.mpr ⟨hm, ?_⟩
      simp
    obtain ⟨x, hx⟩ := List.length_eq_one_iff.mp
      (Nat.le_antisymm (h.keys _ _ _) (List.length_pos_of_mem hmem))
    rw [hx, List.mem_singleton] at hmem
    rw [hx, ← hmem]
    rfl

/-- The answer to a message that is stored already. -/
def ReplayOf (m : ChatMessage) (a : AcceptedMessage) : Prop :=
  a.serverMessageId = m.pk ∧ a.clientMessageId = m.clientMessageId ∧
    a.acceptedAt = m.acceptedAt ∧ a.replayed = true

/-- The checks before the transaction of a call: the normalized body. -/
def AcceptCall.checked (c : AcceptCall) : Except Exn String := do
  requireUuid4 c.connectionId
  requireUuid4 c.clientMessageId
  normalizeChatText c.body

/-- **LATER CALL** with the key of a message, over the moments `R`: it gets the message
    again, if its body is the same, and otherwise the conflict, unless one of the checks
    before that, or the database, fails it.  The check of the access fails it only if there
    is a moment at which the sender may not write in the room; and where there is one
    moment only, it lets by only a sender who may. -/
inductive LaterAnswer (c : AcceptCall) (m : ChatMessage) (R : Time → Store → Prop)
    (F : Exn → Prop) : Except Exn AcceptedMessage → Prop
  | replayed {a : AcceptedMessage} : c.checked = .ok m.body → ReplayOf m a →
      (Sometime R fun _ s => ∃ x ∈ s.messages, x.pk = m.pk ∧ x.delivery = a.delivery) →
      AtOnce R (mayAccept c.room c.sender) → LaterAnswer c m R F (.ok a)
  | conflict {body : String} : c.checked = .ok body → body ≠ m.body →
      AtOnce R (mayAccept c.room c.sender) → LaterAnswer c m R F
        (.error (.chatReplayConflict "The client message ID has different content."))
  | refusedEarly {e : Exn} : c.checked = .error e → LaterAnswer c m R F (.error e)
  | unavailable {body : String} : c.checked = .ok body →
      (Sometime R fun t s => mayAccept c.room c.sender t s = false) →
      LaterAnswer c m R F (.error chatUnavailable)
  | failed {e : Exn} : F e → LaterAnswer c m R F (.error e)

/-- What such a call answers when it has the database `s` to itself, at the time `now`. -/
def laterAnswer (c : AcceptCall) (m : ChatMessage) (now : Time) (s : Store) :
    Except Exn AcceptedMessage := do
  let body ← c.checked
  if mayAccept c.room c.sender now s then
    if body = m.body then
      .ok { serverMessageId := m.pk, clientMessageId := m.clientMessageId,
            acceptedAt := m.acceptedAt, delivery := m.delivery, replayed := true }
    else .error (.chatReplayConflict "The client message ID has different content.")
  else .error chatUnavailable

/-- With one moment there is one answer. -/
theorem LaterAnswer.eq {c : AcceptCall} {m : ChatMessage} {now : Time}
    {r : Except Exn AcceptedMessage} (hpks : (s.messages.map (·.pk)).Nodup) (hm : m ∈ s.messages)
    (h : LaterAnswer c m (fun t' s' => t' = now ∧ s' = s) (fun _ => False) r) :
    r = laterAnswer c m now s := by
  rw [laterAnswer]
  cases h with
  | @replayed a hbody hreplay hdelivery hmay =>
      obtain ⟨hid, hclient, hat, htrue⟩ := hreplay
      obtain ⟨t, d, ⟨-, hd⟩, x, hx, hpk, hx'⟩ := hdelivery
      rw [hd] at hx
      rw [List.inj_on_of_nodup_map hpks hx hm hpk] at hx'
      have hyes : mayAccept c.room c.sender now s = true := hmay now s fun _ _ => Iff.rfl
      rw [hbody]
      show _ = if mayAccept c.room c.sender now s then _ else _
      rw [if_pos hyes, if_pos rfl, ← hid, ← hclient, ← hat, hx', ← htrue]
  | conflict hbody hne hmay =>
      have hyes : mayAccept c.room c.sender now s = true := hmay now s fun _ _ => Iff.rfl
      rw [hbody]
      show _ = if mayAccept c.room c.sender now s then _ else _
      rw [if_pos hyes, if_neg hne]
  | refusedEarly he =>
      rw [he]
      rfl
  | unavailable hbody hrefused =>
      obtain ⟨t, d, ⟨ht, hd⟩, hno⟩ := hrefused
      rw [ht, hd] at hno
      rw [hbody]
      show _ = if mayAccept c.room c.sender now s then _ else _
      rw [if_neg (Bool.eq_false_iff.mp hno)]
  | failed hf => exact False.elim hf

/-- What a stored message says of its body. -/
def Canonical (sha256 : String → String) (m : ChatMessage) : Prop :=
  normalizeChatText m.body = .ok m.body ∧
    m.payloadSha256 = sha256 (canonicalMessage m.room m.sender m.body)

/-- How the transaction of a later call may fail. -/
def LaterError (m : ChatMessage) (payloadSha256 : String) (R : Time → Store → Prop)
    (F : Exn → Prop) (e : Exn) : Prop :=
  Refuses F (Sometime R fun t s => mayAccept m.room m.sender t s = false) e ∨
    e = .chatReplayConflict "The client message ID has different content." ∧
      m.payloadSha256 ≠ payloadSha256 ∧ AtOnce R (mayAccept m.room m.sender)

/-- What the transaction of a later call answers. -/
def LaterReplay (m : ChatMessage) (payloadSha256 : String) (R : Time → Store → Prop)
    (r : AcceptedMessage ⊕ ChatMessage) : Prop :=
  ∃ a, r = .inl a ∧ ReplayOf m a ∧
    (Sometime R fun _ s => ∃ x ∈ s.messages, x.pk = m.pk ∧ x.delivery = a.delivery) ∧
    m.payloadSha256 = payloadSha256 ∧ AtOnce R (mayAccept m.room m.sender)

section Later

variable {R : Time → Store → Prop} {F : Exn → Prop} {s0 : Store}
  (hop : Operational F) (hsome : ∃ t s, R t s) (hsame : ∀ t s, R t s → SameRooms s0 s)
  {m : ChatMessage} (hkept : ∀ t s, R t s → Kept m s)

include hop hsome hsame hkept

/-- **LATER CALL**: the transaction finds the message, and compares the bodies. -/
theorem finds_acceptBody_later (hkeys : UserKeys s0) (connectionId : Uuid)
    (body payloadSha256 : String) :
    Finds R F (acceptBody ⟨m.room, m.sender, connectionId, m.clientMessageId, body,
      payloadSha256⟩) (LaterReplay m payloadSha256 R) (LaterError m payloadSha256 R F) := by
  refine Finds.bind ((finds_requireMessageAcceptAccess hop hsome hsame hkeys m.room m.sender).mono
    (fun _ h => h) fun _ he => Or.inl he) fun _ hmay => ?_
  refine Finds.bind (finds_fetch (fun _ he => Or.inl (Or.inl he)) _) ?_
  rintro _ ⟨t, s, hs, rfl⟩
  -- the one message of the key
  obtain ⟨x, hx, hsamex⟩ := List.map_eq_singleton_iff.mp (hkept t s hs).message
  have hmem : x ∈ s.messages := by
    have hin : x ∈ messagesOf m.room m.sender m.clientMessageId s := by
      rw [hx]
      exact List.mem_singleton_self x
    exact (List.mem_filter.mp hin).1
  have hfirst : firstByPk (·.pk) (s.messages.filter fun y => y.room == m.room &&
      y.sender == m.sender && y.clientMessageId == m.clientMessageId) = some x := by
    rw [show s.messages.filter _ = [x] from hx]
    rfl
  rw [hfirst]
  have hpk : x.pk = m.pk := (congrArg ChatMessage.pk hsamex :)
  have hpayload : x.payloadSha256 = m.payloadSha256 :=
    (congrArg ChatMessage.payloadSha256 hsamex :)
  show Finds R F (replayMessage x payloadSha256 >>= _) _ _
  rw [replayMessage]
  split
  · next hne =>
      refine Finds.bind (P := fun _ => False) (Finds.raise (Or.inr ⟨rfl, ?_, hmay⟩))
        fun _ hf => False.elim hf
      rw [← hpayload]
      simpa using hne
  · next heq =>
      refine Finds.ret ⟨_, rfl, ⟨hpk, (congrArg ChatMessage.clientMessageId hsamex :),
        (congrArg ChatMessage.acceptedAt hsamex :), rfl⟩, ⟨t, s, hs, x, hmem, hpk, rfl⟩, ?_, hmay⟩
      rw [← hpayload]
      simpa using heq

/-- **LATER CALL**: it reads only, and what it answers rests on what it saw. -/
theorem reads_accept_later (hkeys : UserKeys s0) (hsha : Set.InjOn sha256 canonicalMessages)
    (hm : Canonical sha256 m) {c : AcceptCall} (hroom : c.room = m.room)
    (hsender : c.sender = m.sender) (hkey : c.clientMessageId = m.clientMessageId) :
    Reads R F (c.run sha256) (LaterAnswer c m R F) := by
  obtain ⟨room, sender, connectionId, clientMessageId, text⟩ := c
  cases hroom
  cases hsender
  cases hkey
  have check : ∀ {β : Type} (r : Except Exn β) (f : β → M AcceptedMessage),
      (∀ e, r = .error e → AcceptCall.checked ⟨m.room, m.sender, connectionId,
        m.clientMessageId, text⟩ = .error e) →
      (∀ b, r = .ok b → Reads R F (f b) (LaterAnswer ⟨m.room, m.sender, connectionId,
        m.clientMessageId, text⟩ m R F)) →
      Reads R F (Prog.ofAnswer r >>= f) (LaterAnswer ⟨m.room, m.sender, connectionId,
        m.clientMessageId, text⟩ m R F) := by
    intro β r f herr hf
    cases r with
    | ok b => exact hf b rfl
    | error e => exact .refusedEarly (herr e rfl)
  refine check _ _ (fun e he => ?_) fun _ hconnection =>
    check _ _ (fun e he => ?_) fun _ hclient =>
    check _ _ (fun e he => ?_) fun body hbody => ?_
  · rw [AcceptCall.checked, he]
    rfl
  · rw [AcceptCall.checked, hconnection, he]
    rfl
  · rw [AcceptCall.checked, hconnection, hclient, he]
    rfl
  have hchecked : AcceptCall.checked ⟨m.room, m.sender, connectionId, m.clientMessageId, text⟩ =
      .ok body := by
    rw [AcceptCall.checked, hconnection, hclient, hbody]
    rfl
  have hagain := normalizeChatText_again hbody
  rw [canonicalPayloadSha256_eq hagain]
  have hiff : m.payloadSha256 = sha256 (canonicalMessage m.room m.sender body) ↔
      m.body = body := by
    rw [hm.2]
    exact sha256_eq_iff hsha hm.1 hagain
  refine check _ _ (fun _ he => nomatch he) fun hash hhash => ?_
  cases hhash
  refine Reads.andThen (Reads.mono ?_ (Finds.atomic (fun _ he => Or.inl (Or.inl he))
    (finds_acceptBody_later hop hsome hsame hkept hkeys connectionId body _)))
  rintro (e | r) hr
  · rcases hr with (hf | ⟨rfl, hrefused⟩) | ⟨rfl, hne, hmay⟩
    · exact .failed hf
    · exact .unavailable hchecked hrefused
    · exact .conflict hchecked (fun hsame => hne (hiff.mpr hsame.symm)) hmay
  · obtain ⟨a, rfl, hreplay, hdelivery, hpayload, hmay⟩ := hr
    refine .replayed ?_ hreplay hdelivery hmay
    rw [hiff.mp hpayload]
    exact hchecked

end Later

/-! ## Every run -/

/-- The message that the commits of a call have stored. -/
def storedBy (l : List (Store × Store)) : Option Nat :=
  l.getLast?.bind fun e => (e.2.messages.drop e.1.messages.length).head?.map (·.pk)

/-- The first message of a call is the one it stored. -/
theorem Accepts.storedBy {c : AcceptCall} {m : ChatMessage} {notes : List Notification}
    (h : Accepts sha256 c m notes s s') (l : List (Store × Store)) :
    storedBy (l ++ [(s, s')]) = some m.pk := by
  have hmessages : s'.messages = s.messages ++ [m] := by rw [h.write]; rfl
  simp [Market.storedBy, hmessages]

section Runs

variable {ι : Type} {calls : ι → AcceptCall} {now : Time}
  {c c' : Config ι Store Lock Exn Obs AcceptedMessage}

/-- The stores of a run, and the message of every call. -/
structure AcceptInv (sha256 : String → String)
    (c : Config ι Store Lock Exn Obs AcceptedMessage) : Prop where
  store : ChatInv sha256 c.db
  stored : ∀ i n, storedBy (commitsOf (c.sess i).hist) = some n → n ∈ c.db.messages.map (·.pk)
  once : ∀ i j n, storedBy (commitsOf (c.sess i).hist) = some n →
    storedBy (commitsOf (c.sess j).hist) = some n → i = j
  waiting : ∀ i n, storedBy (commitsOf (c.sess i).hist) = some n →
    (commitsOf (c.sess i).hist).length = 1 → n ∉ c.db.published

/-- A good store begins with no commit. -/
theorem AcceptInv.start (h : ChatInv sha256 s) :
    AcceptInv sha256 (Config.start s now fun i => (calls i).run sha256) where
  store := h
  stored _ _ hn := nomatch hn
  once _ _ _ hn := nomatch hn
  waiting _ _ hn := nomatch hn

/-- A step without a commit. -/
theorem AcceptInv.same (h : AcceptInv sha256 c) (hdb : c'.db = c.db)
    (hc : ∀ j, commitsOf (c'.sess j).hist = commitsOf (c.sess j).hist) : AcceptInv sha256 c' where
  store := by rw [hdb]; exact h.store
  stored i n := by rw [hc, hdb]; exact h.stored i n
  once i j n := by rw [hc, hc]; exact h.once i j n
  waiting i n := by rw [hc, hdb]; exact h.waiting i n

/-- **STEP**: a commit of session `i`. -/
theorem AcceptInv.commit (h : AcceptInv sha256 c) {i : ι}
    (hnew : Progresses sha256 (calls i) ((c.db, c'.db) :: commitsOf (c.sess i).hist))
    (hi : commitsOf (c'.sess i).hist = (c.db, c'.db) :: commitsOf (c.sess i).hist)
    (hother : ∀ j, j ≠ i → commitsOf (c'.sess j).hist = commitsOf (c.sess j).hist) :
    AcceptInv sha256 c' := by
  -- a commit after the first one leaves the message of every session as it was
  have later : ∀ {n : Nat}, storedBy (commitsOf (c.sess i).hist) = some n →
      storedBy ((c.db, c'.db) :: commitsOf (c.sess i).hist) = some n →
      ∀ j, storedBy (commitsOf (c'.sess j).hist) = storedBy (commitsOf (c.sess j).hist) := by
    intro n hold hnow j
    by_cases hj : j = i
    · rw [hj, hi, hold, hnow]
    · rw [hother j hj]
  generalize hL : (c.db, c'.db) :: commitsOf (c.sess i).hist = L at hnew later
  obtain ⟨message, published, hnew⟩ := hnew
  rw [hL] at hi
  cases hnew with
  | idle => exact nomatch hL
  | replayed s =>
      obtain ⟨hpair, hnil⟩ := List.cons.inj hL
      have hdb : c'.db = c.db := (congrArg Prod.snd hpair).trans (congrArg Prod.fst hpair).symm
      have hnone : storedBy [(s, s)] = none := by simp [storedBy]
      have old : ∀ j n, storedBy (commitsOf (c'.sess j).hist) = some n →
          commitsOf (c'.sess j).hist = commitsOf (c.sess j).hist := by
        intro j n hn
        by_cases hj : j = i
        · rw [hj, hi, hnone] at hn
          exact nomatch hn
        · exact hother j hj
      refine ⟨?_, fun j n hn => ?_, fun j k n hj hk => ?_, fun j n hn hlen => ?_⟩
      · rw [hdb]
        exact h.store
      · rw [hdb]
        rw [old j n hn] at hn
        exact h.stored j n hn
      · rw [old j n hj] at hj
        rw [old k n hk] at hk
        exact h.once j k n hj hk
      · rw [hdb]
        have hsame := old j n hn
        rw [hsame] at hn hlen
        exact h.waiting j n hn hlen
  | @stored m notes s s' ha =>
      obtain ⟨hpair, hnil⟩ := List.cons.inj hL
      obtain ⟨rfl, rfl⟩ := Prod.mk.inj hpair
      have hmessages : c'.db.messages = c.db.messages ++ [m] := by rw [ha.write]; rfl
      have hpublished : c'.db.published = c.db.published := by rw [ha.write]; rfl
      have hpks : c'.db.messages.map (·.pk) = c.db.messages.map (·.pk) ++ [m.pk] := by
        rw [hmessages, List.map_append]
        rfl
      -- the message is new to all sessions
      have cases' : ∀ j n, storedBy (commitsOf (c'.sess j).hist) = some n →
          (j = i ∧ n = m.pk) ∨ j ≠ i ∧ storedBy (commitsOf (c.sess j).hist) = some n ∧
            n ∈ c.db.messages.map (·.pk) := by
        intro j n hn
        by_cases hj : j = i
        · rw [hj, hi] at hn
          exact Or.inl ⟨hj, Option.some.inj (hn.symm.trans (ha.storedBy []))⟩
        · rw [hother j hj] at hn
          exact Or.inr ⟨hj, hn, h.stored j n hn⟩
      refine ⟨h.store.accepts ha, fun j n hn => ?_, fun j k n hj hk => ?_, fun j n hn hlen => ?_⟩
      · rw [hpks]
        rcases cases' j n hn with ⟨-, rfl⟩ | ⟨-, -, hold⟩
        · exact List.mem_append_right _ List.mem_cons_self
        · exact List.mem_append_left _ hold
      · rcases cases' j n hj with ⟨rfl, rfl⟩ | ⟨-, hj', hold⟩
        · rcases cases' k m.pk hk with ⟨rfl, -⟩ | ⟨-, -, hold⟩
          · rfl
          · exact absurd hold ha.pkFree
        · rcases cases' k n hk with ⟨-, rfl⟩ | ⟨-, hk', -⟩
          · exact absurd hold ha.pkFree
          · exact h.once j k n hj' hk'
      · rw [hpublished]
        rcases cases' j n hn with ⟨-, rfl⟩ | ⟨hne, hold, -⟩
        · exact fun hmem => ha.pkFree (h.store.attempted _ hmem)
        · rw [hother j hne] at hlen
          exact h.waiting j n hold hlen
  | @published m notes s s' a ha =>
      obtain ⟨hpair, hold⟩ := List.cons.inj hL
      have hdb : c'.db = addPublished m.pk c.db :=
        (congrArg Prod.snd hpair).trans (congrArg (fun e => addPublished m.pk e.1) hpair).symm
      have hmine : storedBy (commitsOf (c.sess i).hist) = some m.pk := by
        rw [hold]
        exact ha.storedBy []
      have hsame := later hmine (ha.storedBy [_])
      refine ⟨?_, fun j n hn => ?_, fun j k n hj hk => ?_, fun j n hn hlen => ?_⟩
      · rw [hdb]
        refine h.store.publishes (h.stored i m.pk hmine) (h.waiting i m.pk hmine ?_)
        rw [hold]
        rfl
      · rw [hdb]
        rw [hsame] at hn
        exact h.stored j n hn
      · rw [hsame] at hj hk
        exact h.once j k n hj hk
      · have hne : j ≠ i := by
          rintro rfl
          rw [hi] at hlen
          exact nomatch hlen
        rw [hsame] at hn
        rw [hother j hne] at hlen
        rw [hdb]
        intro hmem
        rcases List.mem_append.mp hmem with hmem | hmem
        · exact h.waiting j n hn hlen hmem
        · rw [List.mem_singleton.mp hmem] at hn
          exact hne (h.once j i m.pk hn hmine)
  | @delivered m notes s s' a b ha =>
      obtain ⟨hpair, hold⟩ := List.cons.inj hL
      have hdb : c'.db = setDelivery m.pk .live c.db :=
        (congrArg Prod.snd hpair).trans
          (congrArg (fun e => setDelivery m.pk .live e.1) hpair).symm
      have hmine : storedBy (commitsOf (c.sess i).hist) = some m.pk := by
        rw [hold]
        exact ha.storedBy [_]
      have hsame := later hmine (ha.storedBy [_, _])
      refine ⟨?_, fun j n hn => ?_, fun j k n hj hk => ?_, fun j n hn hlen => ?_⟩
      · rw [hdb]
        exact h.store.delivers m.pk
      · rw [hdb, setDelivery_pks]
        rw [hsame] at hn
        exact h.stored j n hn
      · rw [hsame] at hj hk
        exact h.once j k n hj hk
      · have hne : j ≠ i := by
          rintro rfl
          rw [hi] at hlen
          exact nomatch hlen
        rw [hsame] at hn
        rw [hother j hne] at hlen
        rw [hdb]
        exact h.waiting j n hn hlen

/-- Every call is correct. -/
theorem accept_supported : Supported (fun _ : ι => acceptCtx p)
    (fun i r w => AcceptPost sha256 (calls i) r w)
    (Config.start s now fun i => (calls i).run sha256) :=
  supported_start (fun _ => (acceptCtx_abides p).lawful) fun i =>
    wp_accept (calls i) (w := ⟨s, now, {}⟩) ⟨rfl, rfl, rfl⟩ rfl

variable [DecidableEq ι]

/-- **RUN**: every session is a prefix of a call. -/
theorem progresses_reached (p : Platform)
    (hr : Reached s now (fun i => (calls i).run sha256) c) (i : ι) :
    Progresses sha256 (calls i) (commitsOf (c.sess i).hist) := by
  obtain ⟨r, w, hpost, l, hl⟩ := run_history (acceptCtx_fits p) accept_supported hr
    (fun _ _ _ _ => trivial) i
  refine hpost.1.suffix ?_
  rw [← hl, commitsOf_append]
  exact List.suffix_append _ _

/-- **RUN**: the stores of every configuration reached. -/
theorem acceptInv_reached (p : Platform) (h : ChatInv sha256 s)
    (hr : Reached s now (fun i => (calls i).run sha256) c) : AcceptInv sha256 c := by
  induction hr with
  | refl => exact AcceptInv.start h
  | @tail b c' hr hs ih =>
      obtain ⟨who, hs⟩ := hs
      cases who with
      | none =>
          refine ih.same ?_ fun j => commits_other hs fun hc => nomatch hc
          cases hs with
          | tick _ t ht => rfl
          | env _ s he => exact False.elim he
      | some i =>
          have hother := fun j (hj : j ≠ i) =>
            commits_other hs fun hc => hj (Option.some.inj hc).symm
          rcases commits_step hs i with ⟨hdb, hc⟩ | ⟨-, hc⟩
          · refine ih.same (hdb rfl) fun j => ?_
            by_cases hj : j = i
            · rw [hj]
              exact hc
            · exact hother j hj
          · have hnew := progresses_reached p (Reaches.step hr hs) i
            rw [hc] at hnew
            exact ih.commit hnew hc hother

/-- **RUN**: a call that begins when its key has a message. -/
theorem later_accept (p : Platform) (hsha : Set.InjOn sha256 canonicalMessages)
    (h : ChatInv sha256 s) (hr : Reached s now (fun i => (calls i).run sha256) c)
    {m : ChatMessage} (hm : m ∈ c.db.messages) {i : ι} (hroom : (calls i).room = m.room)
    (hsender : (calls i).sender = m.sender)
    (hkey : (calls i).clientMessageId = m.clientMessageId)
    (hfresh : c.prog i = (calls i).run sha256) (hsess : c.sess i = {}) {F : Exn → Prop}
    (hF : Operational F) (hr' : Reaches (failing (postgres fun _ _ => False) F) c c') :
    (∀ d, Step (failing (postgres fun _ _ => False) F) (some i) c' d → d.db = c'.db) ∧
    ∀ r, c'.prog i = Prog.ofAnswer r →
      LaterAnswer (calls i) m (Between (failing (postgres fun _ _ => False) F) c c') F r := by
  have hinv := acceptInv_reached p h hr
  -- at every moment since then the tables are the same, and the message is kept
  have hsince : ∀ t d, Between (failing (postgres fun _ _ => False) F) c c' t d →
      ChatGrows c.db d := by
    rintro t d ⟨x, hx, -, -, rfl⟩
    exact run_onward (acceptCtx_fits p) accept_supported (fun _ _ _ he => False.elim he)
      (fun _ _ _ _ hg hg' => chatGrows_composes.trans _ _ _ hg hg'.2) hr
      (reaches_of_failing (D := postgres fun _ _ => False) hF hx) (fun _ _ _ _ _ => trivial)
        (chatGrows_composes.refl c.db)
  have hunwritten : Unwritten (c.sess i) := by
    rw [hsess]
    exact unwritten_idle
  refine reads_reached (fun _ => validateBalancedJournal_same rfl rfl) (fun _ he => he) hr'
    hunwritten ?_
  rw [hfresh]
  exact reads_accept_later hF ⟨c.now, c.db, c, Reaches.refl _ c, hr', rfl, rfl⟩
    (fun t d hd => (hsince t d hd).toSameRooms)
    (fun t d hd => (hinv.store.kept hm).grows (hsince t d hd)) hinv.store.users hsha
    (hinv.store.payloads m hm) hroom hsender hkey

end Runs

/-- Accepted once, said of one configuration of a run. -/
structure AcceptedOnce {ι : Type} [DecidableEq ι] (sha256 : String → String)
    (calls : ι → AcceptCall) (c : Config ι Store Lock Exn Obs AcceptedMessage) : Prop where
  stored : ∀ room sender key, (messagesOf room sender key c.db).length ≤ 1
  published : ∀ n, c.db.published.count n ≤ 1
  attempted : ∀ n ∈ c.db.published, ∃ m ∈ c.db.messages, m.pk = n
  told : ∀ m ∈ c.db.messages, ∀ r ∈ c.db.rooms, r.pk = m.room → r.kind = .product →
    ∃ x, c.db.conversations.find? (·.room == m.room) = some x ∧
      (notesOf (x.recipient m.sender) (messageEventKey m.pk) c.db).length = 1
  refused : ∀ i e, c.prog i = .raise e → RefusesChat e → commitsOf (c.sess i).hist = []
  later : ∀ m ∈ c.db.messages, ∀ i, (calls i).room = m.room → (calls i).sender = m.sender →
    (calls i).clientMessageId = m.clientMessageId → c.prog i = (calls i).run sha256 →
    c.sess i = {} → ∀ F : Exn → Prop, Operational F →
    ∀ c', Reaches (failing (postgres fun _ _ => False) F) c c' →
      (∀ d, Step (failing (postgres fun _ _ => False) F) (some i) c' d → d.db = c'.db) ∧
      ∀ r, c'.prog i = Prog.ofAnswer r →
        LaterAnswer (calls i) m (Between (failing (postgres fun _ _ => False) F) c c') F r
  alone : ∀ m ∈ c.db.messages, ∀ x : AcceptCall, x.room = m.room → x.sender = m.sender →
    x.clientMessageId = m.clientMessageId → ∀ ids now,
      call (x.run sha256) ids now c.db = (laterAnswer x m now c.db, c.db)

/-- **ACCEPTED ONCE**: in every interleaving of calls of `accept`, a key has at most one
    message, which is published at most once and comes, in a product room, with one
    notification of the counterparty; a call that is refused has committed nothing; and a
    call that begins once the message is there changes nothing, and answers with it when
    its body is the same and with the conflict otherwise, unless one of the checks before
    that, or the database, fails it. -/
theorem accepted_once {ι : Type} [DecidableEq ι] (p : Platform) {sha256 : String → String}
    (hsha : Set.InjOn sha256 canonicalMessages) (calls : ι → AcceptCall) {s : Store}
    {now : Time} {c : Config ι Store Lock Exn Obs AcceptedMessage} (h : ChatInv sha256 s)
    (hr : Reached s now (fun i => (calls i).run sha256) c) : AcceptedOnce sha256 calls c where
  stored := (acceptInv_reached p h hr).store.keys
  published := List.nodup_iff_count_le_one.mp (acceptInv_reached p h hr).store.published
  attempted n hn := List.mem_map.mp ((acceptInv_reached p h hr).store.attempted n hn)
  told m hm r hmr hpk hkind := by
    have hstore := (acceptInv_reached p h hr).store
    obtain ⟨x, hx, hne⟩ := hstore.told m hm r hmr hpk hkind
    exact ⟨x, hx, Nat.le_antisymm (hstore.notes _ _) (List.length_pos_of_ne_nil hne)⟩
  refused i e hraise hrefuses := by
    obtain ⟨w, he, -, hnone⟩ := run_ended (acceptCtx_fits p) accept_supported hr
      (fun _ _ _ _ _ => trivial) (i := i) (r := .error e) hraise
    have hhist : (c.sess i).hist = w.sess.hist := congrArg Session.hist he.sess
    rw [hhist]
    exact hnone e rfl hrefuses
  later m hm i hroom hsender hkey hfresh hsess F hF c' hr' :=
    later_accept p hsha h hr hm hroom hsender hkey hfresh hsess hF hr'
  alone m hm x hroom hsender hkey ids now := by
    have hinv := (acceptInv_reached p h hr).store
    have hreads := reads_accept_later (R := fun t' s' => t' = now ∧ s' = c.db)
      (F := fun _ => False) (fun _ he => False.elim he) ⟨now, c.db, rfl, rfl⟩
      (fun _ _ hs => hs.2 ▸ SameRooms.refl c.db) (fun _ _ hs => hs.2 ▸ hinv.kept hm)
      hinv.users hsha (hinv.payloads m hm) hroom hsender hkey
    obtain ⟨hanswer, hdb⟩ := reads_call ids hreads ⟨rfl, rfl⟩
    exact Prod.ext (hanswer.eq hinv.messages hm) hdb

/-- A conversation about a product. -/
def oneConversation : Store where
  users := [{ pk := 1, username := "seller" }, { pk := 2, username := "buyer" }]
  products := [{ pk := 3, owner := 1 }]
  rooms := [{ pk := 4, kind := .product }]
  participants := [{ room := 4, user := 1 }, { room := 4, user := 2 }]
  conversations := [{ pk := 5, room := 4, product := 3, seller := 1, buyer := 2 }]

/-- The store of the example is a good one. -/
theorem oneConversation_chatInv : ChatInv id oneConversation where
  users := by decide
  rooms := by decide
  messages := by decide
  keys _ _ _ := Nat.zero_le 1
  payloads _ hm := nomatch hm
  notes _ _ := Nat.zero_le 1
  told _ hm := nomatch hm
  attempted _ hn := nomatch hn
  published := by decide

/-- A message of the buyer, and the same one over another connection, with blanks. -/
def messageTwice : Fin 2 → AcceptCall
  | 0 => ⟨4, 2, someUuid 100, someUuid 101, "hello"⟩
  | 1 => ⟨4, 2, someUuid 200, someUuid 101, " hello "⟩

/-- Both calls begin, one stores the message and tells the seller, and the other one gets
    it again. -/
theorem message_accepted_once :
    ∃ c : Config (Fin 2) Store Lock Exn Obs AcceptedMessage,
      Reached oneConversation 2000 (fun i => (messageTwice i).run id) c ∧
      (c.db.messages.map (·.pk), c.db.published, c.db.notifications.length) =
        ([7], [7], 1) ∧ AcceptedOnce id messageTwice c := by
  have hplay : (play validateBalancedJournal [.run 1 2 id, .run 0 100 (fun k => 7 + k),
      .run 1 100 (fun k => 20 + k)]
      (Config.start oneConversation 2000 fun i => (messageTwice i).run id)).map (fun c =>
        (c.db.messages.map (·.pk), c.db.published, c.db.notifications.length)) =
      some ([7], [7], 1) := by decide +kernel
  obtain ⟨c, hr, hc⟩ := reaches_of_play (D := postgres fun _ _ => False) (f := fun c =>
    (c.db.messages.map (·.pk), c.db.published, c.db.notifications.length)) hplay
  exact ⟨c, hr, hc, accepted_once plainPlatform (Set.injOn_id _) messageTwice
    oneConversation_chatInv hr⟩

/-- A stored message, whose sender is dormant since. -/
def dormantSender : Store where
  users := [{ pk := 1, username := "buyer_one" }]
  rooms := [{ pk := 4, kind := .global }]
  messages := [{ pk := 7, room := 4, sender := 1, connectionId := someUuid 100,
                 clientMessageId := someUuid 101, body := "hello",
                 payloadSha256 := canonicalMessage 4 1 "hello", delivery := .live,
                 acceptedAt := 1000 }]
  published := [7]
  actions := [{ pk := 1, kind := .userDormancy, targetUser := some 1, startsAt := 1500,
                expiresAt := 1500 + ACTION_DURATION }]

theorem dormantSender_chatInv : ChatInv id dormantSender where
  users := by decide
  rooms := by decide
  messages := by decide
  keys _ _ _ := List.length_filter_le _ _
  payloads m hm := by
    rw [List.mem_singleton.mp hm]
    constructor
    · decide +kernel
    · rfl
  notes _ _ := Nat.zero_le 1
  told m hm r hr _ hkind := by
    rw [List.mem_singleton.mp hr] at hkind
    exact nomatch hkind
  attempted := by decide
  published := by decide

/-- The sender sends its message again. -/
def messageAgain : Fin 1 → AcceptCall := fun _ => ⟨4, 1, someUuid 200, someUuid 101, "hello"⟩

/-- The access check comes before the message is looked up. -/
theorem dormant_retry_refused :
    ¬ ∀ (s : Store) (now : Time) (calls : Fin 1 → AcceptCall)
      (c : Config (Fin 1) Store Lock Exn Obs AcceptedMessage), ChatInv id s →
      Reached s now (fun i => (calls i).run id) c → ∀ m ∈ s.messages,
        (calls 0).room = m.room → (calls 0).sender = m.sender →
        (calls 0).clientMessageId = m.clientMessageId →
        normalizeChatText (calls 0).body = .ok m.body →
        ∀ r, c.prog 0 = Prog.ofAnswer r → ∃ a, r = .ok a ∧ ReplayOf m a := by
  intro h
  have hplay : (play validateBalancedJournal [.run 0 100 (fun k => 20 + k)]
      (Config.start dormantSender 2000 fun i => (messageAgain i).run id)).map (fun c =>
        raised (c.prog 0)) = some (some chatUnavailable) := by decide +kernel
  obtain ⟨c, hr, hc⟩ := reaches_of_play (D := postgres fun _ _ => False)
    (f := fun c => raised (c.prog 0)) hplay
  obtain ⟨a, ha, -⟩ := h dormantSender 2000 messageAgain c dormantSender_chatInv hr _
    List.mem_cons_self rfl rfl rfl (by decide +kernel) _ (raised_eq hc)
  exact nomatch ha

end Market
