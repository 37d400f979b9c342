import Marketplace.ChatSpecs

/-! # The sliding windows of a sender

    A message is inserted only while fewer than the limit were accepted in the window
    before the start of its transaction, or later; and it is accepted after that start.
    Every window that holds the new message holds otherwise only messages that were
    counted, and so no window ever holds more than the limit. -/

namespace Market

open TxnProgram TxnInterleaving TxnLogic TxnProtection TxnSoundness TxnBody TxnFrames
  TxnInvariants TxnSchedule

variable {p : Platform} {Γ : Ctx Store Lock Exn Obs} {w w' : World Store Lock Obs}
  {s s' : Store} {α : Type}

/-! ## The calls -/

/-- A call of `accept`. -/
structure AcceptCall where
  room : Nat
  sender : Nat
  connectionId : Uuid
  clientMessageId : Uuid
  body : String

def AcceptCall.run (sha256 : String → String) (c : AcceptCall) : M AcceptedMessage :=
  accept sha256 c.room c.sender c.connectionId c.clientMessageId c.body

/-- What the transaction of the call is about, with the normalized body and its hash. -/
def AcceptCall.submission (c : AcceptCall) (body payloadSha256 : String) : ChatSubmission :=
  ⟨c.room, c.sender, c.connectionId, c.clientMessageId, body, payloadSha256⟩

/-- The transaction of `accept`: what is so at its end is so at its commit. -/
theorem wp_acceptTransaction (hA : Abides p Γ) (hshow : ShowsAllocated Γ) (x : ChatSubmission)
    (hi : Idle w)
    {Q : Except Exn (AcceptedMessage ⊕ ChatMessage) → World Store Lock Obs → Prop}
    (hok : ∀ r w2, commitsOf w2.sess.hist = commitsOf w.sess.hist →
      Γ.leave w2.sess.held w2.db w2.view → AcceptEnd Γ x r w2 →
      Γ.guar w2.sess.held w2.db w2.view ∧ Q (.ok r) w2.publish)
    (herr : ∀ e w3, Idle w3 → commitsOf w3.sess.hist = commitsOf w.sess.hist →
      Q (.error e) w3) :
    wp Γ (atomic (acceptBody x)) Q w := by
  refine wp_transaction (F := anyError) (P := fun _ r w1 => AcceptEnd Γ x r w1) hA.lawful hi
    (fun w' he => ?_) anyError_faults (fun e w3 _ hidle hc _ => herr e w3 hidle hc) ?_
  · refine body_acceptBody hA hshow x (begin_pend_id hi he) (begin_open w') ?_
    show (if w'.sess.frames.isEmpty then w'.now else w'.sess.start) ≤ w'.now
    rw [(hi.env he).frames]
    exact Nat.le_refl _
  · intro w' r w1 w2 he hw hend he2 hleave
    exact ⟨fun _ => hok r w2 (commits_transaction he hw he2) hleave (hend.env hA he2),
      fun _ _ => trivial⟩

/-- One statement in a transaction of its own. -/
theorem top_atomicWrite (hA : Abides p Γ) {m : M α} {f : Store → Store}
    (h : ∀ w : World Store Lock Obs, w.sess.pend = id →
      Body Γ m w (fun _ w' => w'.sess.pend = f) anyError)
    (hguar : ∀ held s, Γ.leave held s (f s) → Γ.guar held s (f s)) : Top Γ (atomic m) := by
  refine Top.atomicEnds (P := fun _ _ _ g => g = f) hA.lawful (fun w hpend _ => h w hpend)
    (fun _ _ _ _ hg _ => hg) fun _ held s g hleave hg => ?_
  rw [hg] at hleave ⊢
  exact hguar held s hleave

theorem body_addPublished (hA : Abides p Γ) (n : Nat) (hpend : w.sess.pend = id) :
    Body Γ (Prog.write (addPublished n)) w (fun _ w' => w'.sess.pend = addPublished n)
      anyError := by
  refine Body.mono (Body.write hA.lawful anyError_faults fun s =>
    hA.leave _ _ _ respects_addPublished) fun _ w1 _ hp => ?_
  rw [hp, hpend]
  rfl

theorem body_setDelivery (hA : Abides p Γ) (n : Nat) (d : DeliveryState)
    (hpend : w.sess.pend = id) :
    Body Γ (updateRows .message [n] (setDelivery n d)) w
      (fun _ w' => w'.sess.pend = setDelivery n d) anyError := by
  refine Body.mono (body_updateRows hA.lawful anyError_faults fun _ _ _ s =>
    hA.leave _ _ _ respects_setDelivery) fun _ w1 _ hp => ?_
  rw [hp.1, hpend]
  rfl

/-- **CALL**: `accept` in a context that may commit what it commits. -/
theorem top_accept (hA : Abides p Γ) (hshow : ShowsAllocated Γ) (c : AcceptCall)
    (haccept : ∀ body hash r (w : World Store Lock Obs), Γ.leave w.sess.held w.db w.view →
      AcceptEnd Γ (c.submission body hash) r w → Γ.guar w.sess.held w.db w.view)
    (hpublish : ∀ n held s, Γ.leave held s (addPublished n s) →
      Γ.guar held s (addPublished n s))
    (hdelivery : ∀ n held s, Γ.leave held s (setDelivery n .live s) →
      Γ.guar held s (setDelivery n .live s))
    (sha256 : String → String) : Top Γ (c.run sha256) := by
  have htransaction : ∀ body hash, Top Γ (atomic (acceptBody (c.submission body hash))) :=
    fun body hash w hi => wp_acceptTransaction hA hshow _ hi
      (fun r w2 _ hleave hend => ⟨haccept body hash r w2 hleave hend, publish_idle w2⟩)
      fun _ _ hidle _ => hidle
  have hdeliver : ∀ m, Top Γ (deliver m) := by
    intro m
    refine Top.bind (Top.tryCatch (Top.bind (top_atomicWrite hA (fun w hpend =>
      body_addPublished hA m.pk hpend) (hpublish m.pk)) fun _ => Top.bind Top.fresh fun _ =>
        Top.ret _) fun _ => Top.ret _) fun live => ?_
    cases live with
    | true => exact Top.bind (top_atomicWrite hA (fun w hpend =>
        body_setDelivery hA m.pk .live hpend) (hdelivery m.pk)) fun _ => Top.ret _
    | false => exact Top.ret _
  refine Top.bind (Top.ofAnswer _) fun _ => Top.bind (Top.ofAnswer _) fun _ =>
    Top.bind (Top.ofAnswer _) fun _ => Top.bind (Top.ofAnswer _) fun _ =>
    Top.bind (htransaction _ _) fun r => ?_
  cases r with
  | inl replayed => exact Top.ret _
  | inr m => exact hdeliver m

/-! ## Windows -/

/-- How many messages of the sender were accepted in the window that ends at `t`. -/
def acceptedWithin (sender window : Nat) (t : Time) (s : Store) : Nat :=
  (s.messages.filter fun m =>
    m.sender == sender && (isRecent window t m.acceptedAt && decide (m.acceptedAt ≤ t))).length

/-- No window of any sender holds more than the limit. -/
def WindowBound (limit window : Nat) (s : Store) : Prop :=
  ∀ sender t, acceptedWithin sender window t s ≤ limit

theorem length_filter_append {ρ : Type} (q : ρ → Bool) (l : List ρ) (r : ρ) :
    ((l ++ [r]).filter q).length = (l.filter q).length + (if q r = true then 1 else 0) := by
  rw [List.filter_append, List.length_append, List.filter_cons, List.filter_nil]
  split <;> rfl

/-- **INSERT**: a message whose transaction started when the window was not full. -/
theorem WindowBound.insert {limit window : Nat} {now : Time} {m : ChatMessage}
    (h : WindowBound limit window s) (hstarted : now ≤ m.acceptedAt)
    (hlimit : recentCount (fun x => x.sender == m.sender) window now s < limit) :
    WindowBound limit window (addMessage m s) := by
  intro sender t
  rw [acceptedWithin, addMessage, length_filter_append]
  split
  · next hin =>
      -- whoever is in the window with the message was counted
      obtain ⟨hsender, hwindow⟩ := Bool.and_eq_true_iff.mp hin
      obtain ⟨-, hle⟩ := Bool.and_eq_true_iff.mp hwindow
      have hle : m.acceptedAt ≤ t := of_decide_eq_true hle
      have hcount : acceptedWithin sender window t s ≤
          recentCount (fun x => x.sender == m.sender) window now s := by
        refine (List.monotone_filter_right s.messages fun x hx => ?_).length_le
        obtain ⟨hx, hrest⟩ := Bool.and_eq_true_iff.mp hx
        obtain ⟨hrecent, -⟩ := Bool.and_eq_true_iff.mp hrest
        rw [Bool.and_eq_true]
        refine ⟨by rw [beq_iff_eq.mp hsender]; exact hx, isRecent_iff.mpr ?_⟩
        exact Nat.lt_of_le_of_lt (Nat.le_trans hstarted hle) (isRecent_iff.mp hrecent)
      exact Nat.lt_of_le_of_lt hcount hlimit
  · exact h sender t

/-- The windows look at what was accepted only. -/
theorem WindowBound.congr {limit window : Nat} (h : WindowBound limit window s)
    (hsame : s'.messages.map ChatMessage.accepted = s.messages.map ChatMessage.accepted) :
    WindowBound limit window s' := by
  intro sender t
  have count : ∀ s : Store, acceptedWithin sender window t s =
      ((s.messages.map ChatMessage.accepted).filter fun m => m.sender == sender &&
        (isRecent window t m.acceptedAt && decide (m.acceptedAt ≤ t))).length := by
    intro s
    rw [← filter_accepted fun _ => rfl, List.length_map, acceptedWithin]
  rw [count, hsame, ← count]
  exact h sender t

/-! ## The context -/

/-- No sender ever has more than ten messages in ten seconds or sixty in a minute. -/
def SenderBounds (s : Store) : Prop :=
  WindowBound CHAT_BURST_MESSAGES CHAT_BURST_SECONDS s ∧
    WindowBound CHAT_SUSTAINED_MESSAGES CHAT_SUSTAINED_SECONDS s

theorem SenderBounds.congr (h : SenderBounds s)
    (hsame : s'.messages.map ChatMessage.accepted = s.messages.map ChatMessage.accepted) :
    SenderBounds s' :=
  ⟨h.1.congr hsame, h.2.congr hsame⟩

/-- A commit keeps the bounds. -/
def boundsCtx (p : Platform) : Ctx Store Lock Exn Obs :=
  market p ⟨fun _ _ => True, fun _ s s' => SenderBounds s → SenderBounds s'⟩
    (fun _ _ _ => True) (fun _ _ _ => True)

theorem boundsCtx_abides (p : Platform) : Abides p (boundsCtx p) :=
  market_abides ⟨fun _ => trivial, fun _ _ _ _ _ => trivial⟩ fun _ _ => trivial

theorem addNotifications_messages (notes : List Notification) (s : Store) :
    (addNotifications notes s).messages = s.messages := rfl

/-- What `accept` commits keeps the bounds. -/
theorem AcceptEnd.bounds {x : ChatSubmission} {r : AcceptedMessage ⊕ ChatMessage}
    (h : AcceptEnd Γ x r w) (hb : SenderBounds w.db) : SenderBounds w.view := by
  cases h with
  | replayed m _ _ _ _ _ hpend =>
      rw [view_of_id hpend]
      exact hb
  | stored m room hs _ _ ha =>
      obtain ⟨notes, -, hwrites⟩ := ha.writes
      obtain ⟨n, acceptedAt, hrow⟩ := hs.row
      have hsender : m.sender = x.sender := by rw [hrow]; rfl
      have hlimits : ∀ check ∈ rateChecks x.sender x.connectionId,
          recentCount check.1 check.2.2 w.sess.start w.db < check.2.1 := hs.limits
      rw [rateChecks, ← hsender] at hlimits
      have hadded : SenderBounds (addMessage m w.db) :=
        ⟨hb.1.insert hs.started (hlimits _ List.mem_cons_self),
          hb.2.insert hs.started (hlimits _ (List.mem_cons_of_mem _ List.mem_cons_self))⟩
      refine hadded.congr ?_
      rw [World.view, hwrites, addNotifications_messages]

theorem top_acceptBounds (sha256 : String → String) (c : AcceptCall) :
    Top (boundsCtx p) (c.run sha256) := by
  refine top_accept (boundsCtx_abides p) (fun _ _ _ _ => trivial) c
    (fun body hash r w hleave hend => ⟨hleave.1, hleave.2, hend.bounds⟩)
    (fun n held s hleave => ⟨hleave.1, hleave.2, fun hb => hb.congr rfl⟩)
    (fun n held s hleave => ⟨hleave.1, hleave.2, fun hb => hb.congr ?_⟩) sha256
  exact setDelivery_accepted n .live s

/-! ## Every run -/

/-- **SLIDING WINDOWS**: in every interleaving of calls of `accept`, by any senders in any
    rooms over any connections, no window of ten seconds holds more than ten accepted
    messages of one sender and no window of sixty seconds more than sixty. -/
theorem sender_windows_bounded {ι : Type} [DecidableEq ι] (p : Platform)
    (sha256 : String → String) (calls : ι → AcceptCall) {s : Store} {now : Time}
    {c : Config ι Store Lock Exn Obs AcceptedMessage} (h : SenderBounds s)
    (hr : Reached s now (fun i => (calls i).run sha256) c) (sender : Nat) (t : Time) :
    acceptedWithin sender 10 t c.db ≤ 10 ∧ acceptedWithin sender 60 t c.db ≤ 60 := by
  have hb : SenderBounds c.db :=
    top_invariant (market_fits p _ (fun _ => ⟨fun _ => trivial, fun _ _ _ _ _ => trivial⟩) _ _)
      (fun i => top_acceptBounds (p := p) sha256 (calls i)) (fun _ _ _ h => False.elim h)
      (fun _ _ _ _ hi hg => hg.2.2 hi) hr (fun _ _ _ _ _ => trivial) h
  exact ⟨hb.1 sender t, hb.2 sender t⟩

theorem senderBounds_of_length (h : s.messages.length ≤ 10) : SenderBounds s :=
  ⟨fun _ _ => Nat.le_trans (List.length_filter_le _ _) h,
    fun _ _ => Nat.le_trans (List.length_filter_le _ _) (Nat.le_trans h (by decide))⟩

/-- A UUIDv4. -/
def someUuid (n : Nat) : Uuid := 4 * 2 ^ 76 + 2 ^ 63 + n

/-- The global room, where one user sent nine messages within a millisecond. -/
def nineMessages : Store where
  users := [{ pk := 1, username := "buyer_one" }]
  rooms := [{ pk := 2, kind := .global }]
  messages := (List.range 9).map fun n =>
    { pk := n, room := 2, sender := 1, connectionId := someUuid 0, clientMessageId := someUuid n,
      body := "hello", payloadSha256 := "", delivery := .live, acceptedAt := 1000 + n }

/-- The tenth and the eleventh message, over two connections. -/
def twoMore : Fin 2 → AcceptCall
  | 0 => ⟨2, 1, someUuid 100, someUuid 101, "ten"⟩
  | 1 => ⟨2, 1, someUuid 200, someUuid 201, "eleven"⟩

/-- Both requests read the same clock; the second one waits for the user, sees the message
    of the first one, accepted after the start of its own transaction, and is refused. -/
theorem tenth_message_accepted :
    ∃ c : Config (Fin 2) Store Lock Exn Obs AcceptedMessage,
      Reached nineMessages 2000 (fun i => (twoMore i).run id) c ∧
      acceptedWithin 1 10 3000 c.db = 10 ∧
      acceptedWithin 1 10 3000 c.db ≤ 10 ∧ acceptedWithin 1 60 3000 c.db ≤ 60 := by
  have hplay : (play validateBalancedJournal [.run 1 2 id, .wait 500,
      .run 0 100 (fun _ => 300), .run 1 100 (fun _ => 400)]
      (Config.start nineMessages 2000 fun i => (twoMore i).run id)).map (fun c =>
        acceptedWithin 1 10 3000 c.db) = some 10 := by decide +kernel
  obtain ⟨c, hr, hten⟩ := reaches_of_play (D := postgres fun _ _ => False)
    (f := fun c => acceptedWithin 1 10 3000 c.db) hplay
  exact ⟨c, hr, hten, sender_windows_bounded plainPlatform id twoMore
    (senderBounds_of_length (by decide)) hr 1 3000⟩

end Market
