import Marketplace.Residue

/-! # The services that add favorites and notifications

    `set_favorite`, the notifications of transfers in product rooms and of messages: what
    their bodies add, they add for users who stand. -/

namespace Market

open TxnProgram TxnInterleaving TxnLogic TxnProtection TxnSoundness TxnBody TxnFrames
  TxnInvariants TxnSchedule Tenancy

variable {p : Platform} {Γ : Ctx Store Lock Exn Obs} {w w' : World Store Lock Obs}
  {s s' : Store}

/-! ## Notifications -/

/-- **NOTIFICATION**: it is added only for a user who stands. -/
theorem body_createNotificationBody_adds (hA : Abides p Γ) (recipient : Nat)
    (eventKey kind : String) (payload : JsonObject)
    (husers : ∀ s, (w.sess.pend s).users = s.users) (hopen : w.sess.frames ≠ []) :
    Body Γ (createNotificationBody recipient eventKey kind payload) w
      (fun _ w' => Adds w w') anyError := by
  have hΓ := hA.lawful
  refine body_look_adds hA (look_raiseIf hΓ fun _ => trivial) fun _ w1 h1 _ => ?_
  refine body_look_adds hA (look_standingUser hA recipient (fun s => ?_) fun e => ?_)
    fun u w2 h2 hstand => ?_
  · rw [h1.pend]
    exact husers s
  · split <;> exact ⟨_, rfl⟩
  refine body_getOrCreate hΓ anyError_faults ?_ (fun w3 h3 => ?_) fun w3 w4 h3 he => ?_
  · rw [(h1.trans hΓ h2).frames]
    exact hopen
  · refine (look_fetch anyError_faults _).mono fun found w4 h4 _ n _ => ?_
    exact .of_pend (h3.trans hΓ h4).pend
  · refine Body.look hΓ Look.fresh fun n w5 h5 _ => ?_
    have hstand4 : Standing w4.begin.sess.held w4.begin.db u.pk := by
      rw [World.begin_held]
      exact (hstand.near hA h3.toNear).near hA he.still.toNear
    have hstand5 : Standing w5.sess.held w5.db u.pk := hstand4.near hA h5.toNear
    refine Body.bind hΓ (body_insertRow hΓ anyError_faults trivial fun held hsub hkeys s =>
      hA.leave _ _ _ (respects_addNotification (hkeys _ List.mem_cons_self)
        (hkeys _ (List.mem_cons_of_mem _ List.mem_cons_self)) (hsub hstand5.lock)))
      fun _ w6 h6 hi => Body.ret hΓ fun w7 he7 => ?_
    intro s
    show Extends _ (w2.sess.pend s) (w7.sess.pend s)
    rw [he7.still.pend, hi.pend, h5.pend, World.begin_pend, he.sess, h3.pend]
    refine extends_addNotification ?_ _
    have hstand7 : Standing w7.sess.held w7.db u.pk :=
      (hstand5.near hA h6.toNear).near hA he7.still.toNear
    exact hstand7

theorem body_createNotification_adds (hA : Abides p Γ) (recipient : Nat)
    (eventKey kind : String) (payload : JsonObject)
    (husers : ∀ s, (w.sess.pend s).users = s.users) (hopen : w.sess.frames ≠ []) :
    Body Γ (createNotification recipient eventKey kind payload) w
      (fun _ w' => Adds w w') anyError := by
  refine body_atomic_adds hA hopen fun w' he => ?_
  refine body_createNotificationBody_adds hA _ _ _ _ (fun s => ?_) (begin_open w')
  rw [World.begin_pend, he.sess]
  exact husers s

/-- Both parties of a transfer are told. -/
theorem body_createTransferNotifications_adds (hA : Abides p Γ) (sender recipient : Nat)
    (transferId : Uuid) (amount : Money) (husers : ∀ s, (w.sess.pend s).users = s.users)
    (hopen : w.sess.frames ≠ []) :
    Body Γ (createTransferNotifications sender recipient transferId amount) w
      (fun _ w' => Adds w w') anyError := by
  refine body_look_adds hA (look_fetch anyError_faults _) fun names w1 h1 _ => ?_
  have husers1 : ∀ s, (w1.sess.pend s).users = s.users := fun s => by
    rw [h1.pend]
    exact husers s
  have hopen1 : w1.sess.frames ≠ [] := by
    rw [h1.frames]
    exact hopen
  refine body_bind_adds hA (body_createNotification_adds hA _ _ _ _ husers1 hopen1)
    fun _ w2 h2 hadds => ?_
  have hopen2 : w2.sess.frames ≠ [] := by
    rw [h2.frames]
    exact hopen1
  refine body_bind_adds hA (body_createNotification_adds hA _ _ _ _
    (fun s => (hadds.users s).trans (husers1 s)) hopen2) fun _ w3 _ _ => ?_
  exact Body.ret hA.lawful (.of_pend rfl)

theorem body_notifyTransfer_adds (hA : Abides p Γ) (user : Nat) (recipient : User)
    (amount : Money) (r : TransferResult) (husers : ∀ s, (w.sess.pend s).users = s.users)
    (hopen : w.sess.frames ≠ []) :
    Body Γ (notifyTransfer user recipient amount r) w (fun _ w' => Adds w w') anyError := by
  have hΓ := hA.lawful
  rw [notifyTransfer]
  split
  · split
    · refine body_bind_adds hA
        (body_createTransferNotifications_adds hA _ _ _ _ husers hopen) fun _ w1 _ _ => ?_
      exact Body.ret hΓ (.of_pend rfl)
    · exact Body.raise hΓ trivial
  · exact Body.ret hΓ (.of_pend rfl)

/-- Whatever a call executes, users and holdings stay. -/
theorem ExecEnd.adds {c : Call} {r : TransferResult} {held : List Lock} {s0 : Store}
    {f : Store → Store} (h : ExecEnd p c r held s0 f) (P : Nat → Prop) (s : Store) :
    Extends P s (f s) := by
  cases h with
  | replayed _ => exact Extends.refl P s
  | denied q _ _ _ => exact .of_same rfl rfl rfl
  | moved m _ _ =>
      rw [m.apply_eq]
      exact .of_same rfl rfl rfl

theorem body_roomTransferNew_adds (hA : Abides p Γ) {user room : Nat} {amount : Money}
    {key : Uuid} {sender : MockAccount} (howner : SendsFrom user sender.pk w.db)
    (hlock : .advisory (p.idempotencyDigest sender.pk key) false ∈ w.sess.held)
    (hpend : w.sess.pend = id) (hopen : w.sess.frames ≠ []) :
    Body Γ (roomTransferNew p user room amount key sender) w (fun _ w' => Adds w w')
      anyError := by
  have hΓ := hA.lawful
  let c : Call := ⟨user, amount, key, canonicalRoomPayload room amount⟩
  have hexec : ∀ {r : TransferResult} {w1 w2 : World Store Lock Obs}, w1.sess.pend = id →
      Executed p c (fun _ => True) r w2 → Adds w1 w2 := by
    intro r w1 w2 hid h s
    rw [hid]
    exact h.ended.adds _ s
  have deny : ∀ w1, Still Γ w w1 →
      Body Γ (storeDenial sender key (canonicalRoomPayload room amount)) w1
        (fun _ w' => Adds w1 w') anyError := by
    intro w1 hs
    have hid : w1.sess.pend = id := hs.pend.trans hpend
    refine (body_storeDenial (c := c) (T := fun _ => True) hA
      (howner.keeps (hA.keeps hs.toNear)) (hs.held hlock) hid).mono fun r w2 _ h => ?_
    exact hexec hid h.1
  refine body_look_adds hA (look_findConversation hΓ room) fun found w1 h1 _ => ?_
  have hid1 : w1.sess.pend = id := h1.pend.trans hpend
  have hopen1 : w1.sess.frames ≠ [] := by
    rw [h1.frames]
    exact hopen
  cases found with
  | none => exact deny w1 h1
  | some row =>
      obtain ⟨conversation, chatRoom, seller, buyer⟩ := row
      dsimp only
      split
      · exact deny w1 h1
      · cases counterparty user conversation seller buyer with
        | none => exact deny w1 h1
        | some recipient =>
            refine body_bind_adds hA ((body_attempts (c := c) hA
              (payloadOf_room recipient.username room amount) 3 hid1 hopen1 Named.any).mono
                fun r w2 _ h => hexec hid1 h) fun r w2 h2 hadds => ?_
            refine body_bind_adds hA (body_notifyTransfer_adds hA user recipient amount r
              (fun s => ?_) ?_) fun _ w3 _ _ => Body.ret hΓ (.of_pend rfl)
            · rw [hadds.users, hid1]
              rfl
            · rw [h2.frames]
              exact hopen1

/-- **TRANSFER FROM A ROOM**, up to its commit. -/
theorem body_transferForProductRoom_adds (hA : Abides p Γ) (user room : Nat) (amount : Money)
    (key : Uuid) (hpend : w.sess.pend = id) (hopen : w.sess.frames ≠ []) :
    Body Γ (transferForProductRoomBody p user room amount key) w (fun _ w' => Adds w w')
      anyError := by
  have hΓ := hA.lawful
  refine body_look_adds hA (look_getRow hΓ anyError_faults _ _ trivial)
    fun sender w1 h1 hsender => ?_
  rw [h1.view, hpend] at hsender
  have howner : SendsFrom user sender.pk w1.db := sendsFrom_of_find hsender
  refine body_look_adds hA (Look.acquire anyError_faults _) fun _ w2 h2 hlock => ?_
  refine body_look_adds hA (look_firstForUpdate hΓ anyError_faults _ _ _ _)
    fun previous w3 h3 hprevious => ?_
  have h13 : Still Γ w1 w3 := h2.trans hΓ h3
  have h03 : Still Γ w w3 := h1.trans hΓ h13
  cases previous with
  | some previous =>
      show Body Γ (replay previous (canonicalRoomPayload room amount)) w3 _ _
      rw [replay]
      split
      · exact Body.raise hΓ trivial
      · exact Body.ret hΓ (.of_pend rfl)
  | none =>
      refine body_roomTransferNew_adds hA (howner.keeps (hA.keeps h13.toNear)) (h3.held hlock)
        (h03.pend.trans hpend) ?_
      rw [h03.frames]
      exact hopen

/-! ## Favorites -/

theorem extends_metric {k : WriteKind} (hk : k ∈ [WriteKind.newMetric, .metric])
    {held : List Lock} {f : Store → Store} (h : Licensed held k f) (P : Nat → Prop) (s : Store) :
    Extends P s (f s) := by
  cases h with
  | newMetric m _ => exact .of_same rfl rfl rfl
  | metric m => exact .of_same rfl rfl rfl
  | _ => exact absurd hk (by decide)

theorem body_recomputeProductMetric_adds (hA : Abides p Γ) (n : Nat)
    (hopen : w.sess.frames ≠ []) :
    Body Γ (recomputeProductMetric n) w (fun _ w' => Adds w w') anyError :=
  body_adds_of_safe hA [.newMetric, .metric] (fun _ hk _ _ hf s => extends_metric hk hf _ s)
    (fun _ hΓ' hp => safe_recomputeProductMetric hΓ' hp n) hopen

theorem body_addFavoriteOnce_adds (hA : Abides p Γ) {user : Nat} (n : Nat)
    (hstand : Standing w.sess.held w.db user) (hopen : w.sess.frames ≠ []) :
    Body Γ (addFavoriteOnce user n) w (fun _ w' => Adds w w') anyError := by
  have hΓ := hA.lawful
  refine Body.bind (P := fun _ w' => Adds w w') hΓ (body_getOrCreate hΓ anyError_faults hopen
    (fun w1 h1 => ?_) fun w1 w2 h1 he => ?_) fun _ _ _ h => Body.ret hΓ h
  · refine (look_fetch anyError_faults _).mono fun found w2 h2 _ r _ => ?_
    exact .of_pend (h1.trans hΓ h2).pend
  · refine Body.look hΓ Look.fresh fun k w3 h3 _ => ?_
    have hstand2 : Standing w2.begin.sess.held w2.begin.db user := by
      rw [World.begin_held]
      exact (hstand.near hA h1.toNear).near hA he.still.toNear
    have hstand3 : Standing w3.sess.held w3.db user := hstand2.near hA h3.toNear
    refine Body.bind hΓ (body_insertRow hΓ anyError_faults trivial fun held hsub hkeys s =>
      hA.leave _ _ _ (respects_addFavorite (hsub hstand3.lock) (hkeys _ List.mem_cons_self)
        (hkeys _ (List.mem_cons_of_mem _ List.mem_cons_self)))) fun _ w4 h4 hi =>
      Body.ret hΓ fun w5 he5 => ?_
    intro s
    show Extends _ (w.sess.pend s) (w5.sess.pend s)
    rw [he5.still.pend, hi.pend, h3.pend, World.begin_pend, he.sess, h1.pend]
    have hstand5 : Standing w5.sess.held w5.db user :=
      (hstand3.near hA h4.toNear).near hA he5.still.toNear
    exact extends_addFavorite hstand5 _

/-- A `DELETE` of favorites adds nothing. -/
theorem body_deleteFavorites_adds (hA : Abides p Γ) (q : Favorite → Bool) :
    Body Γ (deleteRows .favorite (·.favorites) (·.pk) q removeFavorites) w
      (fun _ w' => Adds w w') anyError := by
  have hΓ := hA.lawful
  refine body_look_adds hA (look_fetch anyError_faults _) fun pks w1 h1 _ => ?_
  refine body_look_adds hA (Look.acquireAll hΓ anyError_faults _) fun _ w2 h2 _ => ?_
  refine (Body.write hΓ anyError_faults fun s => hA.leave _ _ _
    respects_removeFavorites).mono fun _ w3 _ hp s => ?_
  rw [hp]
  exact extends_removeFavorites pks _

/-- **FAVORITE**, up to its commit. -/
theorem body_setFavorite_adds (hA : Abides p Γ) (user n : Nat) (active : Bool)
    (hpend : w.sess.pend = id) (hopen : w.sess.frames ≠ []) :
    Body Γ (setFavoriteBody user n active) w (fun _ w' => Adds w w') anyError := by
  have hΓ := hA.lawful
  refine body_look_adds hA (look_standingUser hA user (fun s => ?_) fun e => ?_)
    fun u w1 h1 hstand => ?_
  · rw [hpend]
    rfl
  · split <;> exact ⟨_, rfl⟩
  refine body_look_adds hA (look_getForUpdate hΓ anyError_faults _ _ _ _ trivial)
    fun _ w2 h2 _ => ?_
  have hopen2 : w2.sess.frames ≠ [] := by
    rw [(h1.trans hΓ h2).frames]
    exact hopen
  -- whatever was done with the favorite, the counts of the product follow
  have hcount : ∀ {w3 : World Store Lock Obs}, Within Γ w2 w3 →
      Body Γ (recomputeProductMetric n) w3 (fun _ w' => Adds w3 w') anyError := by
    intro w3 h3
    refine body_recomputeProductMetric_adds hA n ?_
    rw [h3.frames]
    exact hopen2
  cases active with
  | true =>
      exact body_bind_adds hA (body_addFavoriteOnce_adds hA n (hstand.near hA h2.toNear)
        hopen2) fun _ w3 h3 _ => hcount h3
  | false =>
      exact body_bind_adds hA (body_deleteFavorites_adds hA _) fun _ w3 h3 _ => hcount h3

/-! ## Messages -/

theorem body_createMessage_adds (hA : Abides p Γ) (hshow : ShowsAllocated Γ)
    (x : ChatSubmission) (hsender : .row .user x.sender ∈ w.sess.held) :
    Body Γ (createMessage x) w (fun _ w' => Adds w w') anyError := by
  have hΓ := hA.lawful
  refine body_look_adds hA (look_clockTimestamp anyError_faults) fun acceptedAt w1 h1 _ => ?_
  refine body_look_adds hA Look.fresh fun n w2 h2 _ => ?_
  refine body_look_adds hA (Look.observe fun w' _ hg => hshow _ _ _ hg) fun _ w3 h3 _ => ?_
  have h03 : Still Γ w w3 := h1.trans hΓ (h2.trans hΓ h3)
  refine Body.bind hΓ (body_insertRow hΓ anyError_faults trivial
    fun held hsub hkeys s => hA.leave _ _ _ (respects_addMessage (hkeys _ List.mem_cons_self)
      (hkeys _ (List.mem_cons_of_mem _ List.mem_cons_self)) (hsub (h03.held hsender))))
    fun _ w4 _ hi => Body.ret hΓ fun s => ?_
  rw [hi.pend]
  exact .of_same rfl rfl rfl

theorem body_notifyMessage_adds (hA : Abides p Γ) (m : ChatMessage)
    (husers : ∀ s, (w.sess.pend s).users = s.users) (hopen : w.sess.frames ≠ []) :
    Body Γ (notifyMessage m) w (fun _ w' => Adds w w') anyError := by
  have hΓ := hA.lawful
  refine body_look_adds hA (look_getRow hΓ anyError_faults _ _ trivial) fun c w1 h1 _ => ?_
  -- nothing here depends on the key of the event
  generalize messageEventKey m.pk = key
  refine body_bind_adds hA (body_createNotification_adds hA _ key _ _ (fun s => ?_) ?_)
    fun _ _ _ _ => Body.ret hΓ (.of_pend rfl)
  · rw [h1.pend]
    exact husers s
  · rw [h1.frames]
    exact hopen

/-- **MESSAGE**, up to its commit. -/
theorem body_acceptBody_adds (hA : Abides p Γ) (hshow : ShowsAllocated Γ) (x : ChatSubmission)
    (hpend : w.sess.pend = id) (hopen : w.sess.frames ≠ []) :
    Body Γ (acceptBody x) w (fun _ w' => Adds w w') anyError := by
  have hΓ := hA.lawful
  refine body_look_adds hA (look_requireMessageAcceptAccess hΓ anyError_faults trivial _ _
    fun _ _ _ => trivial) fun r w1 h1 ha => ?_
  obtain ⟨user, room⟩ := r
  refine body_look_adds hA (look_fetch anyError_faults _) fun stored w2 h2 _ => ?_
  cases stored with
  | some m =>
      show Body Γ (replayMessage m x.payloadSha256 >>= _) w2 _ _
      rw [replayMessage]
      split
      · exact Body.bind (P := fun _ _ => False) hΓ (Body.raise hΓ trivial)
          fun _ _ _ h => False.elim h
      · exact Body.ret hΓ (.of_pend rfl)
  | none =>
      refine body_look_adds hA (look_currentTimestamp anyError_faults) fun now w3 h3 _ => ?_
      have h13 : Still Γ w1 w3 := h2.trans hΓ h3
      have hid3 : w3.sess.pend = id := (h1.trans hΓ h13).pend.trans hpend
      refine body_look_adds hA (look_enforceRateLimits hA anyError_faults (fun _ => trivial)
        x.sender x.connectionId now (h13.held ha.senderLock) hid3) fun _ w4 h4 _ => ?_
      have h14 : Still Γ w1 w4 := h13.trans hΓ h4
      have hid4 : w4.sess.pend = id := h4.pend.trans hid3
      refine body_bind_adds hA (body_createMessage_adds hA hshow x (h14.held ha.senderLock))
        fun m w5 h5 hadds => ?_
      show Body Γ (if room.kind == .product then _ else _) w5 _ _
      split
      · refine body_bind_adds hA (body_notifyMessage_adds hA m (fun s => ?_) ?_)
          fun _ _ _ _ => Body.ret hΓ (.of_pend rfl)
        · rw [hadds.users, hid4]
          rfl
        · rw [h5.frames, (h1.trans hΓ h14).frames]
          exact hopen
      · exact Body.ret hΓ (.of_pend rfl)

end Market
