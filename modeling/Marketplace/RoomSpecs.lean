import Marketplace.ChatSpecs

/-! # How rooms come to be

    A room is committed together with its participants and, in a product room, with its
    conversation.  Its keys are claimed until then, so that nobody has them at the commit. -/

namespace Market

open TxnProgram TxnInterleaving TxnLogic TxnProtection TxnSoundness TxnBody TxnFrames
  TxnInvariants

variable {p : Platform} {Γ : Ctx Store Lock Exn Obs} {w w' : World Store Lock Obs}
  {s s' : Store} {held : List Lock} {F : Exn → Prop}

/-! ## Writes -/

/-- A new room, under the keys of its kind. -/
theorem respects_addRoom {r : Room} (hpk : .unique (.pk .room r.pk) ∈ held)
    (hglobal : r.kind = .global → .unique .globalRoom ∈ held)
    (hdirect : ∀ a b, r.kind = .direct → r.directUserLow = some a → r.directUserHigh = some b →
      .unique (.directPair a b) ∈ held) : Respects p held s (addRoom r s) := by
  refine Respects.of_table .room ?_ { Keeps.refl s with rooms := List.prefix_append _ _ } ?_ ?_ ?_
  · intro t ht
    cases t <;> first | rfl | exact absurd rfl ht
  · intro t n ht _
    cases t <;> exact absurd ht (by decide)
  · exact fun _ _ ht => absurd ht (by decide)
  · intro i hi ho h
    cases i with
    | pk t n =>
        cases hi
        exact index_of_append ho (fun hq => by rw [← eq_of_beq hq]; exact hpk) h
    | globalRoom => exact index_of_append ho (fun hq => hglobal (eq_of_beq hq)) h
    | directPair a b =>
        refine index_of_append ho (fun hq => ?_) h
        rw [Bool.and_eq_true, Bool.and_eq_true] at hq
        exact hdirect a b (eq_of_beq hq.1.1) (eq_of_beq hq.1.2) (eq_of_beq hq.2)
    | _ => exact nomatch hi

theorem respects_addConversation {c : ProductConversation}
    (hpk : .unique (.pk .conversation c.pk) ∈ held)
    (hroom : .unique (.conversationRoom c.room) ∈ held)
    (hkey : .unique (.productConversation c.product c.seller c.buyer) ∈ held) :
    Respects p held s (addConversation c s) := by
  refine Respects.of_table .conversation ?_
    { Keeps.refl s with conversations := List.prefix_append _ _ } ?_ ?_ ?_
  · intro t ht
    cases t <;> first | rfl | exact absurd rfl ht
  · intro t n ht _
    cases t <;> exact absurd ht (by decide)
  · exact fun _ _ ht => absurd ht (by decide)
  · intro i hi ho h
    cases i with
    | pk t n =>
        cases hi
        exact index_of_append ho (fun hq => by rw [← eq_of_beq hq]; exact hpk) h
    | conversationRoom r =>
        exact index_of_append ho (fun hq => by rw [← eq_of_beq hq]; exact hroom) h
    | productConversation n u b =>
        refine index_of_append ho (fun hq => ?_) h
        rw [Bool.and_eq_true, Bool.and_eq_true] at hq
        rw [← eq_of_beq hq.1.1, ← eq_of_beq hq.1.2, ← eq_of_beq hq.2]
        exact hkey
    | _ => exact nomatch hi

theorem respects_addParticipants {room a b : Nat}
    (ha : .unique (.participant room a) ∈ held) (hb : .unique (.participant room b) ∈ held) :
    Respects p held s (addParticipants [⟨room, a⟩, ⟨room, b⟩] s) := by
  refine Respects.of_table .participant ?_ { Keeps.refl s with } ?_ ?_ ?_
  · intro t ht
    cases t <;> first | rfl | exact absurd rfl ht
  · intro t n ht _
    cases t <;> exact absurd ht (by decide)
  · exact fun _ _ ht => absurd ht (by decide)
  · intro i hi ho h
    cases i with
    | participant r u =>
        refine Bool.eq_false_iff.mpr fun hq => ?_
        obtain ⟨x, hx, hp⟩ := List.any_eq_true.mp hq
        rcases List.mem_append.mp hx with hx | hx
        · exact Bool.eq_false_iff.mp h (List.any_eq_true.mpr ⟨x, hx, hp⟩)
        · rw [Bool.and_eq_true, beq_iff_eq, beq_iff_eq] at hp
          have hlocked : .unique (.participant r u) ∈ held := by
            rw [← hp.1, ← hp.2]
            rcases List.mem_cons.mp hx with rfl | hx
            · exact ha
            · rw [List.mem_singleton.mp hx]
              exact hb
          exact not_open_unique hlocked ho
    | pk t n => cases hi; exact h
    | _ => exact nomatch hi

/-! ## What is about to be committed -/

/-- The room of two users, in the order of their primary keys. -/
def directRoom (n a b : Nat) : Room :=
  { pk := n, kind := .direct, directUserLow := some a, directUserHigh := some b }

/-- The conversation of a product with a buyer. -/
def conversationOf (n room : Nat) (product : Nat × Nat) (buyer : Nat) : ProductConversation :=
  { pk := n, room := room, product := product.1, seller := product.2, buyer := buyer }

/-- What one of the operations has written, and the keys that nobody else has. -/
inductive RoomReady (held : List Lock) (s : Store) : (Store → Store) → Prop
  | same : RoomReady held s id
  | globalRoom (n : Nat) : Free held s (.pk .room n) → Free held s .globalRoom →
      RoomReady held s (addRoom { pk := n, kind := .global })
  | direct (n a b : Nat) : a < b → Free held s (.pk .room n) → Free held s (.directPair a b) →
      RoomReady held s fun s =>
        addParticipants [⟨n, a⟩, ⟨n, b⟩] (addRoom (directRoom n a b) s)
  | conversation (n room : Nat) (product : Nat × Nat) (buyer : Nat) : product.2 ≠ buyer →
      product ∈ s.products.map Product.identity →
      Free held s (.pk .room room) → Free held s (.conversationRoom room) →
      Free held s (.productConversation product.1 product.2 buyer) →
      RoomReady held s fun s =>
        addParticipants [⟨room, product.2⟩, ⟨room, buyer⟩]
          (addConversation (conversationOf n room product buyer)
            (addRoom { pk := room, kind := .product } s))

theorem RoomReady.near {f : Store → Store} (hA : Abides p Γ)
    (h : RoomReady w.sess.held w.db f) (hn : Near Γ w w') : RoomReady w'.sess.held w'.db f := by
  cases h with
  | same => exact .same
  | globalRoom n hpk hkey => exact .globalRoom n (hpk.near hA hn) (hkey.near hA hn)
  | direct n a b hab hpk hkey => exact .direct n a b hab (hpk.near hA hn) (hkey.near hA hn)
  | conversation n room product buyer hne hin hpk hroom hkey =>
      exact .conversation n room product buyer hne ((hA.keeps hn).products.subset hin)
        (hpk.near hA hn) (hroom.near hA hn) (hkey.near hA hn)

/-! ## The operations -/

/-- A new room: its row, and its keys are free until the commit. -/
theorem body_addRoom (hA : Abides p Γ) {r : Room} {keys : List Index}
    (hpk : .pk .room r.pk ∈ keys) (hglobal : r.kind = .global → .globalRoom ∈ keys)
    (hdirect : ∀ a b, r.kind = .direct → r.directUserLow = some a → r.directUserHigh = some b →
      .directPair a b ∈ keys) (hpend : w.sess.pend = id) :
    Body Γ (insertRow keys (addRoom r)) w (fun _ w' => w'.sess.pend = addRoom r ∧
      ∀ i ∈ keys, Free w'.sess.held w'.db i) anyError := by
  refine (body_insertRow hA.lawful anyError_faults trivial fun held _ hkeys s =>
    hA.leave _ _ _ (respects_addRoom (hkeys _ hpk) (fun h => hkeys _ (hglobal h))
      fun a b h ha hb => hkeys _ (hdirect a b h ha hb))).mono
      fun _ w1 _ hi => ⟨?_, fun i hkey => ?_⟩
  · rw [hi.pend, hpend]
    rfl
  · refine (hi.settled hA hkey fun s hs => ?_).toFree
    rw [hpend] at hs
    exact hs

theorem body_createGlobalRoom (hA : Abides p Γ) (n : Nat) (hpend : w.sess.pend = id) :
    Body Γ (insertRow [.pk .room n, .globalRoom] (addRoom { pk := n, kind := .global })) w
      (fun _ w' => RoomReady w'.sess.held w'.db w'.sess.pend) anyError := by
  refine (body_addRoom (r := { pk := n, kind := .global }) hA List.mem_cons_self
    (fun _ => List.mem_cons_of_mem _ List.mem_cons_self) (fun _ _ h => nomatch h) hpend).mono
    fun _ w1 _ ⟨hp, hfree⟩ => ?_
  rw [hp]
  exact .globalRoom n (hfree _ List.mem_cons_self)
    (hfree _ (List.mem_cons_of_mem _ List.mem_cons_self))

/-- The participants of a new room, after what was written before. -/
theorem body_createParticipants (hA : Abides p Γ) (room a b : Nat) :
    Body Γ (createParticipants room a b) w (fun _ w' => Within Γ w w' ∧
      w'.sess.pend = fun s => addParticipants [⟨room, a⟩, ⟨room, b⟩] (w.sess.pend s)) anyError := by
  refine (body_insertRow hA.lawful anyError_faults trivial fun held _ hkeys s =>
    hA.leave _ _ _ (respects_addParticipants (hkeys _ List.mem_cons_self)
      (hkeys _ (List.mem_cons_of_mem _ List.mem_cons_self)))).mono fun _ w1 h1 hi => ⟨h1, hi.pend⟩

theorem body_createConversation (hA : Abides p Γ) {product : Product} {buyer : Nat}
    (hin : product.identity ∈ w.db.products.map Product.identity) (hpend : w.sess.pend = id) :
    Body Γ (createConversation product buyer) w
      (fun _ w' => RoomReady w'.sess.held w'.db w'.sess.pend) anyError := by
  have hΓ := hA.lawful
  refine Body.look hΓ Look.fresh fun room w1 h1 _ => ?_
  refine Body.bind hΓ (body_addRoom (r := { pk := room, kind := .product }) hA List.mem_cons_self
    (fun h => nomatch h) (fun _ _ h => nomatch h) (h1.pend.trans hpend))
    fun _ w2 h2 ⟨hp2, hfree2⟩ => ?_
  refine Body.look hΓ Look.fresh fun n w3 h3 _ => ?_
  refine Body.look hΓ (look_raiseIf hΓ fun _ => trivial) fun _ w4 h4 hne => ?_
  have h24 : Still Γ w2 w4 := h3.trans hΓ h4
  have hp4 : w4.sess.pend = addRoom { pk := room, kind := .product } := h24.pend.trans hp2
  refine Body.bind hΓ (body_insertRow hΓ anyError_faults trivial fun held _ hkeys s =>
    hA.leave _ _ _ (respects_addConversation (hkeys _ List.mem_cons_self)
      (hkeys _ (List.mem_cons_of_mem _ List.mem_cons_self))
      (hkeys _ (List.mem_cons_of_mem _ (List.mem_cons_of_mem _ List.mem_cons_self)))))
    fun _ w5 h5 hi => ?_
  have h25 : Near Γ w2 w5 := h24.toNear.trans hΓ h5.toNear
  have h05 : Near Γ w w5 := (h1.toNear.trans hΓ h2.toNear).trans hΓ h25
  -- no key of a conversation is about the room that was written before
  have hview : ∀ i : Index, i.table = .conversation → ∀ s,
      i.present (w4.sess.pend s) = false → i.present s = false := by
    intro i hi s hs
    rw [hp4] at hs
    rw [← hs]
    refine (Index.present_congr ?_).symm
    rw [hi]
    rfl
  refine Body.bind hΓ (body_createParticipants hA room product.owner buyer)
    fun _ w6 _ ⟨h6, hp6⟩ => Body.ret hΓ ?_
  rw [hp6, hi.pend, hp4]
  refine RoomReady.near hA ?_ h6.toNear
  exact .conversation n room product.identity buyer
    (fun h => Bool.eq_false_iff.mp hne (beq_iff_eq.mpr h))
    ((hA.keeps h05).products.subset hin) ((hfree2 _ List.mem_cons_self).near hA h25)
    (hi.settled hA (List.mem_cons_of_mem _ List.mem_cons_self) (hview _ rfl)).toFree
    (hi.settled hA (List.mem_cons_of_mem _ (List.mem_cons_of_mem _ List.mem_cons_self))
      (hview _ rfl)).toFree

theorem body_getOrCreateProductConversation (hA : Abides p Γ) (product actor : Nat)
    (hpend : w.sess.pend = id) :
    Body Γ (getOrCreateProductConversationBody product actor) w
      (fun _ w' => RoomReady w'.sess.held w'.db w'.sess.pend) anyError := by
  have hΓ := hA.lawful
  refine Body.look hΓ (look_requireActiveUser hΓ anyError_faults trivial actor false)
    fun _ w1 h1 _ => ?_
  refine Body.look hΓ (look_orUnavailable hΓ trivial (look_getRow hΓ (fun _ h => Or.inr trivial)
    _ _ (Or.inl ⟨_, rfl⟩))) fun owner w2 h2 _ => ?_
  refine Body.look hΓ (look_raiseIf hΓ fun _ => trivial) fun _ w3 h3 _ => ?_
  refine Body.look hΓ (look_lockActiveParties hΓ anyError_faults trivial actor owner)
    fun users w4 h4 _ => ?_
  refine Body.look hΓ (look_nextUser hΓ users actor fun _ => trivial) fun buyer w5 h5 _ => ?_
  refine Body.look hΓ (look_orUnavailable hΓ trivial (look_getForUpdate hΓ
    (fun _ h => Or.inr trivial) _ _ _ _ (Or.inl ⟨_, rfl⟩))) fun row w6 h6 hrow => ?_
  have hpend6 : w6.sess.pend = id := (h1.trans hΓ (h2.trans hΓ (h3.trans hΓ (h4.trans hΓ
    (h5.trans hΓ h6))))).pend.trans hpend
  refine Body.look hΓ (look_effectiveProductVisibility hΓ anyError_faults _ _) fun _ w7 h7 _ => ?_
  refine Body.look hΓ (look_raiseIf hΓ fun _ => trivial) fun _ w8 h8 _ => ?_
  refine Body.look hΓ (look_fetch anyError_faults _) fun stored w9 h9 _ => ?_
  have h69 : Still Γ w6 w9 := h7.trans hΓ (h8.trans hΓ h9)
  have hpend9 : w9.sess.pend = id := h69.pend.trans hpend6
  cases stored with
  | some c =>
      refine Body.ret hΓ ?_
      rw [hpend9]
      exact .same
  | none =>
      refine body_createConversation hA ((hA.keeps h69.toNear).products.subset ?_) hpend9
      have hin := hrow.1
      rw [view_of_id hpend6] at hin
      exact List.mem_map_of_mem hin

theorem body_getOrCreateDirectRoom (hA : Abides p Γ) (a b : Nat) (hpend : w.sess.pend = id)
    (hopen : w.sess.frames ≠ []) :
    Body Γ (getOrCreateDirectRoomBody a b) w
      (fun _ w' => RoomReady w'.sess.held w'.db w'.sess.pend) anyError := by
  have hΓ := hA.lawful
  refine Body.look hΓ (look_raiseIf hΓ fun _ => trivial) fun _ w1 h1 hne => ?_
  have hlt : min a b < max a b := by
    have : a ≠ b := fun h => Bool.eq_false_iff.mp hne (beq_iff_eq.mpr h)
    omega
  refine Body.look hΓ (look_lockActiveParties hΓ anyError_faults trivial (min a b) (max a b))
    fun users w2 h2 _ => ?_
  have h02 : Still Γ w w2 := h1.trans hΓ h2
  -- the room is there and nothing is written, or it is the one that the savepoint inserted
  refine Body.bind (P := fun r w' => (r.2 = false ∧ w'.sess.pend = id) ∨
      r.2 = true ∧ ∃ n, r.1 = directRoom n (min a b) (max a b) ∧
        w'.sess.pend = addRoom (directRoom n (min a b) (max a b)) ∧
        Free w'.sess.held w'.db (.pk .room n) ∧
        Free w'.sess.held w'.db (.directPair (min a b) (max a b))) hΓ
    (body_getOrCreate hΓ anyError_faults ?_ (fun w3 h3 => ?_) fun w3 w4 h3 he => ?_)
    fun r w5 h5 hr => ?_
  · rw [h02.frames]
    exact hopen
  · refine (look_fetch anyError_faults _).mono fun r w4 h4 _ x _ => Or.inl ⟨rfl, ?_⟩
    exact (h02.trans hΓ (h3.trans hΓ h4)).pend.trans hpend
  · refine Body.look hΓ Look.fresh fun n w5 h5 _ => ?_
    have hpend5 : w5.sess.pend = id := by
      rw [h5.pend, World.begin_pend, he.sess]
      exact (h02.trans hΓ h3).pend.trans hpend
    refine Body.bind hΓ (body_addRoom (r := directRoom n (min a b) (max a b)) hA List.mem_cons_self
      (fun h => nomatch h) (fun x y _ hx hy => ?_) hpend5) fun _ w6 h6 ⟨hp6, hfree⟩ =>
        Body.ret hΓ fun w7 he7 => Or.inr ⟨rfl, n, rfl, ?_, ?_, ?_⟩
    · cases hx
      cases hy
      exact List.mem_cons_of_mem _ List.mem_cons_self
    · show w7.sess.pend = _
      rw [he7.sess, hp6]
    · show Free w7.sess.held w7.db _
      exact (hfree _ List.mem_cons_self).near hA he7.still.toNear
    · show Free w7.sess.held w7.db _
      exact (hfree _ (List.mem_cons_of_mem _ List.mem_cons_self)).near hA he7.still.toNear
  · obtain ⟨room, created⟩ := r
    rcases hr with ⟨rfl, hp⟩ | ⟨rfl, n, rfl, hp, hpk, hkey⟩
    · refine Body.ret hΓ ?_
      rw [hp]
      exact .same
    · refine Body.bind hΓ (body_createParticipants hA n (min a b) (max a b))
        fun _ w6 _ ⟨h6, hp6⟩ => Body.ret hΓ ?_
      rw [hp6, hp]
      exact .direct n _ _ hlt (hpk.near hA h6.toNear) (hkey.near hA h6.toNear)

end Market
