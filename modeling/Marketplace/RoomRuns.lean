import Marketplace.AloneRules
import Marketplace.RoomSpecs

/-! # Rooms and who is in them

    Who is in a room is kept in several places: the two columns of a direct room, the
    participant rows, the parties of a conversation, the owner of its product.  They agree
    in every store that the operations on rooms reach, and so whichever of them an entry
    point reads, it admits the two parties of a room and nobody else. -/

namespace Market

open TxnProgram TxnInterleaving TxnLogic TxnProtection TxnSoundness TxnBody TxnFrames
  TxnInvariants TxnSchedule TxnAlone

variable {p : Platform} {Γ : Ctx Store Lock Exn Obs} {w w' : World Store Lock Obs}
  {s s' : Store} {held : List Lock}

/-! ## The invariant -/

/-- A participant row of the room is about the user. -/
def HasParticipant (room user : Nat) (s : Store) : Prop :=
  ∃ x ∈ s.participants, x.room = room ∧ x.user = user

/-- The room is the direct room of the two users, in this order. -/
def Room.isPair (a b : Nat) (r : Room) : Bool :=
  r.kind == .direct && r.directUserLow == some a && r.directUserHigh == some b

/-- The conversation is about the product, its seller and the buyer. -/
def ProductConversation.hasKey (product seller buyer : Nat) (c : ProductConversation) : Bool :=
  c.product == product && c.seller == seller && c.buyer == buyer

/-- The rows about rooms agree. -/
structure RoomInv (s : Store) : Prop where
  roomKeys : (s.rooms.map (·.pk)).Nodup
  productKeys : (s.products.map (·.pk)).Nodup
  oneGlobal : (s.rooms.filter (·.kind == .global)).length ≤ 1
  onePair : ∀ a b, (s.rooms.filter (Room.isPair a b)).length ≤ 1
  oneConversation : ∀ product seller buyer,
    (s.conversations.filter (ProductConversation.hasKey product seller buyer)).length ≤ 1
  /-- A conversation is in a product room, with the owner of its product and somebody
      else, who are the participants of the room. -/
  conversation : ∀ c ∈ s.conversations, (∃ r ∈ s.rooms, r.pk = c.room ∧ r.kind = .product) ∧
    (c.product, c.seller) ∈ s.products.map Product.identity ∧ c.seller ≠ c.buyer ∧
    ∀ n, HasParticipant c.room n s ↔ n = c.seller ∨ n = c.buyer
  productRoom : ∀ r ∈ s.rooms, r.kind = .product →
    (s.conversations.filter (·.room == r.pk)).length = 1
  directRoom : ∀ r ∈ s.rooms, r.kind = .direct → ∃ a b, a < b ∧ r.directUserLow = some a ∧
    r.directUserHigh = some b ∧ ∀ n, HasParticipant r.pk n s ↔ n = a ∨ n = b
  participantRoom : ∀ x ∈ s.participants, ∃ r ∈ s.rooms, r.pk = x.room

/-- A store before there are rooms. -/
theorem roomInv_of_noRooms (hrooms : s.rooms = []) (hparticipants : s.participants = [])
    (hconversations : s.conversations = []) (hproducts : (s.products.map (·.pk)).Nodup) :
    RoomInv s where
  roomKeys := by rw [hrooms]; exact List.nodup_nil
  productKeys := hproducts
  oneGlobal := by rw [hrooms]; exact Nat.zero_le _
  onePair _ _ := by rw [hrooms]; exact Nat.zero_le _
  oneConversation _ _ _ := by rw [hconversations]; exact Nat.zero_le _
  conversation c hc := by rw [hconversations] at hc; exact nomatch hc
  productRoom r hr := by rw [hrooms] at hr; exact nomatch hr
  directRoom r hr := by rw [hrooms] at hr; exact nomatch hr
  participantRoom x hx := by rw [hparticipants] at hx; exact nomatch hx

/-! ## A new room -/

/-- The store with a new room, its participants and, perhaps, its conversation. -/
def withRoom (r : Room) (users : List Nat) (cs : List ProductConversation) (s : Store) : Store :=
  { s with rooms := s.rooms ++ [r], conversations := s.conversations ++ cs,
           participants := s.participants ++ users.map fun n => ⟨r.pk, n⟩ }

theorem participates_withRoom {r : Room} {users : List Nat} {cs : List ProductConversation}
    {room n : Nat} : HasParticipant room n (withRoom r users cs s) ↔
      HasParticipant room n s ∨ r.pk = room ∧ n ∈ users := by
  constructor
  · rintro ⟨x, hx, hroom, huser⟩
    rcases List.mem_append.mp hx with hx | hx
    · exact Or.inl ⟨x, hx, hroom, huser⟩
    · obtain ⟨m, hm, rfl⟩ := List.mem_map.mp hx
      refine Or.inr ⟨hroom, ?_⟩
      rw [← huser]
      exact hm
  · rintro (⟨x, hx, hroom, huser⟩ | ⟨hroom, hn⟩)
    · exact ⟨x, List.mem_append_left _ hx, hroom, huser⟩
    · exact ⟨⟨r.pk, n⟩, List.mem_append_right _ (List.mem_map_of_mem hn), hroom, rfl⟩

/-- What is new of a room: nobody has its key, nor that of its conversation or pair. -/
structure NewRoom (r : Room) (users : List Nat) (cs : List ProductConversation) (s : Store) :
    Prop where
  fresh : ∀ x ∈ s.rooms, x.pk ≠ r.pk
  globalFree : r.kind = .global → ∀ x ∈ s.rooms, x.kind ≠ .global
  direct : r.kind = .direct → ∃ a b, a < b ∧ r.directUserLow = some a ∧
    r.directUserHigh = some b ∧ (∀ n, n ∈ users ↔ n = a ∨ n = b) ∧
    ∀ x ∈ s.rooms, Room.isPair a b x = false
  product : r.kind = .product → ∃ c, cs = [c]
  conversation : ∀ c ∈ cs, cs = [c] ∧ r.kind = .product ∧ c.room = r.pk ∧
    (c.product, c.seller) ∈ s.products.map Product.identity ∧ c.seller ≠ c.buyer ∧
    (∀ n, n ∈ users ↔ n = c.seller ∨ n = c.buyer) ∧
    ∀ x ∈ s.conversations, ProductConversation.hasKey c.product c.seller c.buyer x = false

/-- At most one row has a property, and none had it before the new one. -/
theorem length_filter_new {ρ : Type} {q : ρ → Bool} {rows : List ρ} {r : ρ}
    (h : (rows.filter q).length ≤ 1) (hnew : q r = true → ∀ x ∈ rows, q x = false) :
    ((rows ++ [r]).filter q).length ≤ 1 := by
  rw [List.filter_append]
  cases hq : q r with
  | true =>
      rw [List.filter_eq_nil_iff.mpr fun x hx => Bool.eq_false_iff.mp (hnew hq x hx),
        List.nil_append]
      exact (List.filter_sublist).length_le
  | false =>
      rw [List.filter_cons_of_neg (Bool.eq_false_iff.mp hq), List.filter_nil, List.append_nil]
      exact h

/-- **INSERT**: a new room keeps the invariant. -/
theorem RoomInv.grow (r : Room) (users : List Nat) (cs : List ProductConversation)
    (h : RoomInv s) (hnew : NewRoom r users cs s) : RoomInv (withRoom r users cs s) := by
  -- nothing was about the primary key of the new room
  have hnobody : ∀ n, ¬ HasParticipant r.pk n s := by
    rintro n ⟨x, hx, hroom, -⟩
    obtain ⟨y, hy, hpk⟩ := h.participantRoom x hx
    exact hnew.fresh y hy (hpk.trans hroom)
  have hunnamed : ∀ c ∈ s.conversations, c.room ≠ r.pk := by
    intro c hc hroom
    obtain ⟨⟨y, hy, hpk, -⟩, -⟩ := h.conversation c hc
    exact hnew.fresh y hy (hpk.trans hroom)
  have hold : ∀ {room n}, r.pk ≠ room →
      (HasParticipant room n (withRoom r users cs s) ↔ HasParticipant room n s) := by
    intro room n hne
    rw [participates_withRoom]
    exact or_iff_left fun hc => hne hc.1
  have hown : ∀ n, HasParticipant r.pk n (withRoom r users cs s) ↔ n ∈ users := by
    intro n
    rw [participates_withRoom]
    exact ⟨fun hc => hc.elim (fun hc => absurd hc (hnobody n)) And.right,
      fun hn => Or.inr ⟨rfl, hn⟩⟩
  refine ⟨?_, h.productKeys, ?_, fun a b => ?_, fun product seller buyer => ?_, fun c hc => ?_,
    fun x hx hkind => ?_, fun x hx hkind => ?_, fun x hx => ?_⟩
  · show ((s.rooms ++ [r]).map (·.pk)).Nodup
    rw [List.map_append]
    refine List.nodup_append'.mpr ⟨h.roomKeys, List.nodup_singleton _, fun n hn hr => ?_⟩
    obtain ⟨x, hx, rfl⟩ := List.mem_map.mp hn
    exact hnew.fresh x hx (List.mem_singleton.mp hr)
  · -- what was free under the locks is still one of a kind
    refine length_filter_new h.oneGlobal fun hq x hx => ?_
    exact beq_eq_false_iff_ne.mpr (hnew.globalFree (eq_of_beq hq) x hx)
  · refine length_filter_new (h.onePair a b) fun hq x hx => ?_
    rw [Room.isPair, Bool.and_eq_true, Bool.and_eq_true, beq_iff_eq, beq_iff_eq, beq_iff_eq] at hq
    obtain ⟨a', b', -, ha, hb, -, hfree⟩ := hnew.direct hq.1.1
    rw [Option.some.inj (hq.1.2.symm.trans ha), Option.some.inj (hq.2.symm.trans hb)]
    exact hfree x hx
  · cases cs with
    | nil =>
        show ((s.conversations ++ []).filter _).length ≤ 1
        rw [List.append_nil]
        exact h.oneConversation product seller buyer
    | cons c rest =>
        obtain ⟨hone, -, -, -, -, -, hfree⟩ := hnew.conversation c List.mem_cons_self
        show ((s.conversations ++ c :: rest).filter _).length ≤ 1
        rw [hone]
        refine length_filter_new (h.oneConversation product seller buyer) fun hq x hx => ?_
        rw [ProductConversation.hasKey, Bool.and_eq_true, Bool.and_eq_true, beq_iff_eq, beq_iff_eq,
          beq_iff_eq] at hq
        rw [← hq.1.1, ← hq.1.2, ← hq.2]
        exact hfree x hx
  · rcases List.mem_append.mp hc with hc | hc
    · obtain ⟨⟨y, hy, hpk, hkind⟩, hproduct, hne, hparties⟩ := h.conversation c hc
      refine ⟨⟨y, List.mem_append_left _ hy, hpk, hkind⟩, hproduct, hne, fun n => ?_⟩
      rw [hold (Ne.symm (hunnamed c hc))]
      exact hparties n
    · obtain ⟨-, hkind, hroom, hproduct, hne, husers, -⟩ := hnew.conversation c hc
      refine ⟨⟨r, List.mem_append_right _ (List.mem_singleton.mpr rfl), hroom.symm, hkind⟩,
        hproduct, hne, fun n => ?_⟩
      rw [hroom, hown, husers]
  · show ((s.conversations ++ cs).filter _).length = 1
    rw [List.filter_append, List.length_append]
    rcases List.mem_append.mp hx with hx | hx
    · have hnone : cs.filter (·.room == x.pk) = [] := by
        refine List.filter_eq_nil_iff.mpr fun c hc hq => ?_
        obtain ⟨-, -, hroom, -⟩ := hnew.conversation c hc
        exact hnew.fresh x hx ((eq_of_beq hq).symm.trans hroom)
      rw [hnone, h.productRoom x hx hkind]
      rfl
    · rw [List.mem_singleton.mp hx] at hkind ⊢
      obtain ⟨c, hcs⟩ := hnew.product hkind
      have hroom := (hnew.conversation c (by rw [hcs]; exact List.mem_cons_self)).2.2.1
      have hnone : s.conversations.filter (·.room == r.pk) = [] :=
        List.filter_eq_nil_iff.mpr fun c hc hq => hunnamed c hc (eq_of_beq hq)
      rw [hnone, hcs]
      simp [hroom]
  · rcases List.mem_append.mp hx with hx | hx
    · obtain ⟨a, b, hab, ha, hb, hparties⟩ := h.directRoom x hx hkind
      refine ⟨a, b, hab, ha, hb, fun n => ?_⟩
      rw [hold (Ne.symm (hnew.fresh x hx))]
      exact hparties n
    · rw [List.mem_singleton.mp hx] at hkind ⊢
      obtain ⟨a, b, hab, ha, hb, husers, -⟩ := hnew.direct hkind
      refine ⟨a, b, hab, ha, hb, fun n => ?_⟩
      rw [hown, husers]
  · rcases List.mem_append.mp hx with hx | hx
    · obtain ⟨y, hy, hpk⟩ := h.participantRoom x hx
      exact ⟨y, List.mem_append_left _ hy, hpk⟩
    · obtain ⟨n, -, rfl⟩ := List.mem_map.mp hx
      exact ⟨r, List.mem_append_right _ (List.mem_singleton.mpr rfl), rfl⟩

/-- **COMMIT**: what an operation commits keeps the invariant. -/
theorem RoomReady.inv {f : Store → Store} (hr : RoomReady held s f) (h : RoomInv s) :
    RoomInv (f s) := by
  have fresh : ∀ {n : Nat}, Free held s (.pk .room n) → ∀ x ∈ s.rooms, x.pk ≠ n :=
    fun hfree x hx hpk => by
      have := List.any_eq_false.mp hfree.free x hx
      exact this (beq_iff_eq.mpr hpk)
  cases hr with
  | same => exact h
  | globalRoom n hpk hkey =>
      have hinv := h.grow { pk := n, kind := .global } [] [] {
        fresh := fresh hpk
        globalFree := fun _ x hx hkind => List.any_eq_false.mp hkey.free x hx (beq_iff_eq.mpr hkind)
        direct := fun hk => nomatch hk
        product := fun hk => nomatch hk
        conversation := fun _ hc => nomatch hc }
      rw [withRoom, List.map_nil, List.append_nil, List.append_nil] at hinv
      exact hinv
  | direct n a b hab hpk hkey =>
      have hinv := h.grow (directRoom n a b) [a, b] [] {
        fresh := fresh hpk
        globalFree := fun hk => nomatch hk
        direct := fun _ => ⟨a, b, hab, rfl, rfl, fun m => by simp, fun x hx =>
          Bool.eq_false_iff.mpr (List.any_eq_false.mp hkey.free x hx)⟩
        product := fun hk => nomatch hk
        conversation := fun _ hc => nomatch hc }
      rw [withRoom, List.append_nil] at hinv
      exact hinv
  | conversation n room product buyer hne hin hpk hroom hkey =>
      exact h.grow { pk := room, kind := .product } [product.2, buyer]
        [conversationOf n room product buyer] {
          fresh := fresh hpk
          globalFree := fun hk => nomatch hk
          direct := fun hk => nomatch hk
          product := fun _ => ⟨_, rfl⟩
          conversation := fun c hc => by
            rw [List.mem_singleton.mp hc]
            exact ⟨rfl, rfl, rfl, hin, hne, fun m => by simp [conversationOf], fun x hx =>
              Bool.eq_false_iff.mpr (List.any_eq_false.mp hkey.free x hx)⟩ }

/-! ## Who is admitted -/

/-- The two parties of a room that is not global. -/
def RoomParties (r : Room) (a b : Nat) (s : Store) : Prop :=
  match r.kind with
  | .global => False
  | .direct => r.directUserLow = some a ∧ r.directUserHigh = some b
  | .product => ∃ c ∈ s.conversations, c.room = r.pk ∧ a = c.seller ∧ b = c.buyer

theorem RoomInv.parties (h : RoomInv s) {r : Room} (hr : r ∈ s.rooms) (hkind : r.kind ≠ .global) :
    ∃ a b, RoomParties r a b s ∧ a ≠ b ∧ ∀ n, HasParticipant r.pk n s ↔ n = a ∨ n = b := by
  cases hk : r.kind with
  | global => exact absurd hk hkind
  | direct =>
      obtain ⟨a, b, hab, ha, hb, hparties⟩ := h.directRoom r hr hk
      refine ⟨a, b, ?_, Nat.ne_of_lt hab, hparties⟩
      rw [RoomParties, hk]
      exact ⟨ha, hb⟩
  | product =>
      have hone := h.productRoom r hr hk
      obtain ⟨c, hc⟩ := List.length_eq_one_iff.mp hone
      obtain ⟨hin, hroom⟩ := List.mem_filter.mp (hc ▸ List.mem_singleton.mpr rfl :
        c ∈ s.conversations.filter (·.room == r.pk))
      have hroom : c.room = r.pk := eq_of_beq hroom
      obtain ⟨-, -, hne, hparties⟩ := h.conversation c hin
      refine ⟨c.seller, c.buyer, ?_, hne, fun n => ?_⟩
      · rw [RoomParties, hk]
        exact ⟨c, hin, hroom, rfl, rfl⟩
      · rw [← hroom]
        exact hparties n

/-- Whoever is in the room, as `contains_user` says, is one of its parties. -/
theorem RoomInv.party (h : RoomInv s) {r row : Room} (hr : r ∈ s.rooms) (hrow : row ∈ s.rooms)
    (hpk : row.pk = r.pk) (hkind : r.kind ≠ .global) {user : Nat} (hin : InRoom row user s)
    {a b : Nat} (hparties : RoomParties r a b s) : user = a ∨ user = b := by
  have hsame : row = r := List.inj_on_of_nodup_map h.roomKeys hrow hr hpk
  rw [hsame] at hin
  cases hk : r.kind with
  | global => exact absurd hk hkind
  | direct =>
      rw [InRoom, hk] at hin
      rw [RoomParties, hk] at hparties
      rw [hparties.1, hparties.2] at hin
      exact hin.imp (fun h => (Option.some.inj h).symm) fun h => (Option.some.inj h).symm
  | product =>
      rw [InRoom, hk] at hin
      rw [RoomParties, hk] at hparties
      obtain ⟨c, hc, hroom, rfl, rfl⟩ := hparties
      refine ((h.conversation c hc).2.2.2 user).mp ?_
      rw [hroom]
      exact hin

theorem asks_requireRoomAccess (room user : Nat) (lock active : Bool) :
    Asks ownDatabase (requireRoomAccess room user lock active) s
      (fun row => row.pk = room ∧ row ∈ s.rooms ∧ InRoom row user s) fun _ => True := by
  intro w hw
  refine (look_requireRoomAccess (solo_lawful _) (fun _ _ => trivial) trivial room user lock
    active).mono fun row w' _ hentered => ?_
  obtain ⟨w1, h1, -, hin⟩ := hentered.contains
  obtain ⟨w2, h2, -, hrow⟩ := hentered.found
  rw [view_of_still h1, hw] at hin
  rw [view_of_still h2, hw] at hrow
  exact ⟨hentered.pk, hrow, hin⟩

theorem asks_requireMessageAcceptAccess (room sender : Nat) :
    Asks ownDatabase (requireMessageAcceptAccess room sender) s
      (fun r => r.2.pk = room ∧ r.2 ∈ s.rooms ∧ InRoom r.2 sender s) fun _ => True := by
  intro w hw
  refine (look_requireMessageAcceptAccess (solo_lawful _) (fun _ _ => trivial) trivial room
    sender fun _ _ _ => trivial).mono fun r w' _ hadmitted => ?_
  obtain ⟨w0, h0, hentered⟩ := hadmitted.entered
  obtain ⟨w1, h1, -, hin⟩ := hentered.contains
  obtain ⟨w2, h2, -, hrow⟩ := hentered.found
  rw [view_of_still h1, view_of_still h0, hw] at hin
  rw [view_of_still h2, view_of_still h0, hw] at hrow
  exact ⟨hentered.pk, hrow, hin⟩

theorem asks_requireActiveUser (user : Nat) (lock : Bool) :
    Asks ownDatabase (requireActiveUser user lock) s (fun _ => True) fun _ => True :=
  fun _ _ => (look_requireActiveUser (solo_lawful _) (fun _ _ => trivial) trivial user
    lock).mono fun _ _ _ _ => trivial

theorem asks_requireActiveUsers (users : List Nat) :
    Asks ownDatabase (requireActiveUsers users) s (fun _ => True) fun _ => True :=
  fun _ _ => look_requireActiveUsers (solo_lawful _) (fun _ _ => trivial) trivial users

theorem asks_ofAnswer {α : Type} (r : Except Exn α) :
    Asks ownDatabase (Prog.ofAnswer r : M α) s (fun _ => True) fun _ => True := by
  cases r with
  | ok a => exact Asks.ret trivial
  | error e => exact Asks.raise trivial

section Admission

variable {r : Room} {a b : Nat} (h : RoomInv s) (hr : r ∈ s.rooms) (hkind : r.kind ≠ .global)
  (hparties : RoomParties r a b s)

include h hr hkind hparties

/-- **ACCEPTANCE** is for the parties of the room. -/
theorem returns_accept (sha256 : String → String) (sender : Nat)
    (connectionId clientMessageId : Uuid) (body : String) :
    Returns ownDatabase (accept sha256 r.pk sender connectionId clientMessageId body) s
      fun _ => sender = a ∨ sender = b := by
  refine Returns.look (asks_ofAnswer _) fun _ _ => Returns.look (asks_ofAnswer _) fun _ _ =>
    Returns.look (asks_ofAnswer _) fun _ _ => Returns.look (asks_ofAnswer _) fun _ _ => ?_
  refine Returns.first (Returns.atomic (Returns.look (asks_requireMessageAcceptAccess r.pk sender)
    fun x ⟨hpk, hrow, hin⟩ => Returns.of_fact fun _ => ?_))
  exact h.party hr hrow hpk hkind hin hparties

/-- **HISTORY** is for the parties of the room. -/
theorem returns_historyAfter (user : Nat) (cursor limit : Int) :
    Returns ownDatabase (historyAfter r.pk user cursor limit) s
      fun _ => user = a ∨ user = b := by
  refine Returns.look (asks_raiseIf (F := fun _ => True) fun _ => trivial) fun _ _ =>
    Returns.look (asks_raiseIf (F := fun _ => True) fun _ => trivial) fun _ _ =>
    Returns.look (asks_requireActiveUser user false) fun _ _ =>
    Returns.look (asks_requireRoomAccess r.pk user false true) fun x ⟨hpk, hrow, hin⟩ =>
      Returns.of_fact fun _ => ?_
  exact h.party hr hrow hpk hkind hin hparties

/-- The other party. -/
theorem asks_presencePeer {user : Nat} (huser : user = a ∨ user = b) :
    Asks ownDatabase (presencePeer r user) s
      (fun peer => user = a ∧ peer = some b ∨ user = b ∧ peer = some a) fun _ => True := by
  cases hk : r.kind with
  | global => exact absurd hk hkind
  | direct =>
      obtain ⟨x, y, hxy, hx, hy, -⟩ := h.directRoom r hr hk
      rw [RoomParties, hk] at hparties
      have hne : a ≠ b := by
        rw [← Option.some.inj (hx.symm.trans hparties.1),
          ← Option.some.inj (hy.symm.trans hparties.2)]
        exact Nat.ne_of_lt hxy
      rw [presencePeer, hk]
      refine Asks.ret ?_
      rw [hparties.1, hparties.2]
      rcases huser with rfl | rfl
      · exact Or.inl ⟨rfl, if_pos (beq_self_eq_true _)⟩
      · refine Or.inr ⟨rfl, if_neg fun hc => hne (Option.some.inj (eq_of_beq hc))⟩
  | product =>
      rw [RoomParties, hk] at hparties
      obtain ⟨c, hc, hroom, rfl, rfl⟩ := hparties
      rw [presencePeer, hk]
      refine Asks.bind (asks_getRow (fun _ _ => trivial) _ _ fun _ => trivial) fun x hx =>
        Asks.ret ?_
      have hxroom := List.find?_some hx
      -- the room has one conversation
      obtain ⟨y, hy⟩ := List.length_eq_one_iff.mp (h.productRoom r hr hk)
      have hxin : x ∈ s.conversations.filter (·.room == r.pk) :=
        List.mem_filter.mpr ⟨List.mem_of_find?_eq_some hx, hxroom⟩
      have hcin : c ∈ s.conversations.filter (·.room == r.pk) :=
        List.mem_filter.mpr ⟨hc, beq_iff_eq.mpr hroom⟩
      rw [hy] at hxin hcin
      rw [List.mem_singleton.mp hxin, ← List.mem_singleton.mp hcin]
      rcases huser with rfl | rfl
      · exact Or.inl ⟨rfl, congrArg some (if_pos (beq_self_eq_true _))⟩
      · have hne := (h.conversation c hc).2.2.1
        exact Or.inr ⟨rfl, congrArg some (if_neg fun hc => hne (eq_of_beq hc))⟩

/-- **PRESENCE** is for the parties of the room, and shows each the other one. -/
theorem returns_authorizedPresencePeers (user : Nat) (active : Bool) :
    Returns ownDatabase (authorizedPresencePeers r.pk user active) s fun peers =>
      user = a ∧ peers = [b] ∨ user = b ∧ peers = [a] := by
  refine Returns.look (asks_requireActiveUser user false) fun _ _ =>
    Returns.look (asks_requireRoomAccess r.pk user false active) fun x ⟨hpk, hrow, hin⟩ =>
    Returns.look (asks_raiseIf (F := fun _ => True) fun _ => trivial) fun _ _ => ?_
  rw [List.inj_on_of_nodup_map h.roomKeys hrow hr hpk]
  refine Returns.look (asks_presencePeer h hr hkind hparties
    (h.party hr hrow hpk hkind hin hparties)) fun peer hpeer => ?_
  have hpeers : user = a ∧ peer.toList = [b] ∨ user = b ∧ peer.toList = [a] := by
    rcases hpeer with ⟨rfl, rfl⟩ | ⟨rfl, rfl⟩
    · exact Or.inl ⟨rfl, rfl⟩
    · exact Or.inr ⟨rfl, rfl⟩
  dsimp only
  split
  · exact Returns.look (asks_requireActiveUsers _) fun _ _ => Returns.ret hpeers
  · exact Returns.ret hpeers

end Admission

/-! ## Every run -/

/-- One of the operations on rooms. -/
inductive RoomOp where
  | globalRoom
  | productConversation (product actor : Nat)
  | directRoom (userA userB : Nat)

def RoomOp.run : RoomOp → M Unit
  | .globalRoom => do
      let _ ← getOrCreateGlobalRoom
      return ()
  | .productConversation product actor => do
      let _ ← getOrCreateProductConversation product actor
      return ()
  | .directRoom userA userB => do
      let _ ← getOrCreateDirectRoom userA userB
      return ()

/-- A commit keeps the invariant. -/
def roomCtx (p : Platform) : Ctx Store Lock Exn Obs :=
  market p ⟨fun _ _ => True, fun _ s s' => RoomInv s → RoomInv s'⟩
    (fun _ _ _ => True) (fun _ _ _ => True)

theorem roomCtx_abides (p : Platform) : Abides p (roomCtx p) :=
  market_abides ⟨fun _ => trivial, fun _ _ _ _ _ => trivial⟩ fun _ _ => trivial

/-- The transaction of an operation. -/
theorem top_roomTransaction {α : Type} {m : M α}
    (h : ∀ w : World Store Lock Obs, w.sess.pend = id → w.sess.frames ≠ [] →
      Body (roomCtx p) m w (fun _ w' => RoomReady w'.sess.held w'.db w'.sess.pend) anyError) :
    Top (roomCtx p) (atomic m) := by
  refine Top.atomicEnds (P := fun _ held s f => RoomReady held s f) (roomCtx_abides p).lawful h
    (fun _ _ _ _ hready hn => hready.near (roomCtx_abides p) hn) fun _ held s f hleave hready => ?_
  exact ⟨hleave.1, hleave.2, hready.inv⟩

theorem top_roomOp (op : RoomOp) : Top (roomCtx p) op.run := by
  have hA := roomCtx_abides p
  cases op with
  | productConversation product actor =>
      exact Top.bind (top_roomTransaction fun w hpend _ =>
        body_getOrCreateProductConversation hA product actor hpend) fun _ => Top.ret _
  | directRoom a b =>
      exact Top.bind (top_roomTransaction fun w hpend hopen =>
        body_getOrCreateDirectRoom hA a b hpend hopen) fun _ => Top.ret _
  | globalRoom =>
      have hfind : Top (roomCtx p) (fetch fun s => s.rooms.find? (·.kind == .global)) :=
        Top.select _
      have hget : Top (roomCtx p) (getRow .room fun s => s.rooms.find? (·.kind == .global)) := by
        refine Top.bind hfind fun r => ?_
        cases r with
        | some room => exact Top.ret room
        | none => exact Top.raise _
      refine Top.bind (Top.tryCatch (Top.bind (Top.bind hfind fun r => ?_) fun _ => Top.ret _)
        fun e => ?_) fun _ => Top.ret _
      · cases r with
        | some room => exact Top.ret _
        | none =>
            refine Top.tryCatch (Top.bind (top_roomTransaction fun w hpend _ => ?_) fun _ =>
              Top.ret _) fun e => ?_
            · have hΓ := hA.lawful
              refine Body.look hΓ Look.fresh fun n w1 h1 _ => ?_
              exact Body.bind hΓ (body_createGlobalRoom hA n (h1.pend.trans hpend))
                fun _ _ _ hready => Body.ret hΓ hready
            · cases e with
              | integrityError =>
                  refine Top.bind hfind fun r => ?_
                  cases r with
                  | some room => exact Top.ret _
                  | none => exact Top.raise _
              | _ => exact Top.raise _
      · cases e with
        | integrityError => exact hget
        | _ => exact Top.raise _

/-- The store as the operations on rooms leave it. -/
theorem roomInv_reached {ι : Type} [DecidableEq ι] (ops : ι → RoomOp) {now : Time}
    {c : Config ι Store Lock Exn Obs Unit} (h : RoomInv s)
    (hr : Reached s now (fun i => (ops i).run) c) : RoomInv c.db :=
  top_invariant (market_fits plainPlatform _
    (fun _ => ⟨fun _ => trivial, fun _ _ _ _ _ => trivial⟩) _ _)
    (fun i => top_roomOp (p := plainPlatform) (ops i)) (fun _ _ _ h => False.elim h)
    (fun _ _ _ _ hi hg => hg.2.2 hi) hr (fun _ _ _ _ _ => trivial) h

/-- The room is the direct room of the two users, in either order. -/
def Room.joins (a b : Nat) (r : Room) : Bool :=
  r.kind == .direct && (r.directUserLow == some a && r.directUserHigh == some b ||
    r.directUserLow == some b && r.directUserHigh == some a)

/-- What is kept about rooms, wherever it is read. -/
structure RoomsAgree (s : Store) : Prop where
  oneConversation : ∀ product seller buyer,
    (s.conversations.filter (ProductConversation.hasKey product seller buyer)).length ≤ 1
  oneDirect : ∀ a b, (s.rooms.filter (Room.joins a b)).length ≤ 1
  oneGlobal : (s.rooms.filter (·.kind == .global)).length ≤ 1
  product : ∀ r ∈ s.rooms, r.kind = .product → ∃ c,
    s.conversations.filter (·.room == r.pk) = [c] ∧
    (∃ x ∈ s.products, x.pk = c.product) ∧
    (∀ x ∈ s.products, x.pk = c.product → c.seller = x.owner) ∧ c.seller ≠ c.buyer ∧
    ∀ n, HasParticipant r.pk n s ↔ n = c.seller ∨ n = c.buyer
  direct : ∀ r ∈ s.rooms, r.kind = .direct → ∃ a b, a < b ∧ r.directUserLow = some a ∧
    r.directUserHigh = some b ∧ ∀ n, HasParticipant r.pk n s ↔ n = a ∨ n = b

theorem RoomInv.agree (h : RoomInv s) : RoomsAgree s where
  oneConversation := h.oneConversation
  oneGlobal := h.oneGlobal
  direct := h.directRoom
  oneDirect a b := by
    -- only one order of two users is a pair
    have hpair : s.rooms.filter (Room.joins a b) =
        s.rooms.filter (Room.isPair (min a b) (max a b)) := by
      refine List.filter_congr fun r hr => ?_
      rw [Bool.eq_iff_iff, Room.joins, Room.isPair, Bool.and_eq_true, Bool.and_eq_true,
        Bool.and_eq_true, Bool.or_eq_true, Bool.and_eq_true, Bool.and_eq_true]
      simp only [beq_iff_eq]
      constructor
      · rintro ⟨hkind, hab⟩
        obtain ⟨x, y, hxy, hx, hy, -⟩ := h.directRoom r hr hkind
        rw [hx, hy] at hab ⊢
        simp only [Option.some.injEq] at hab ⊢
        exact ⟨⟨hkind, by omega⟩, by omega⟩
      · rintro ⟨⟨hkind, hlow⟩, hhigh⟩
        rw [hlow, hhigh]
        simp only [Option.some.injEq]
        exact ⟨hkind, by omega⟩
    rw [hpair]
    exact h.onePair _ _
  product r hr hkind := by
    obtain ⟨c, hc⟩ := List.length_eq_one_iff.mp (h.productRoom r hr hkind)
    obtain ⟨hin, hroom⟩ := List.mem_filter.mp (hc ▸ List.mem_singleton.mpr rfl :
      c ∈ s.conversations.filter (·.room == r.pk))
    have hroom : c.room = r.pk := eq_of_beq hroom
    obtain ⟨-, hproduct, hne, hparties⟩ := h.conversation c hin
    obtain ⟨y, hy, hid⟩ := List.mem_map.mp hproduct
    obtain ⟨hpk, howner⟩ := Prod.ext_iff.mp hid
    refine ⟨c, hc, ⟨y, hy, hpk⟩, fun x hx hxpk => ?_, hne, fun n => ?_⟩
    · rw [List.inj_on_of_nodup_map h.productKeys hx hy (hxpk.trans hpk.symm)]
      exact howner.symm
    · rw [← hroom]
      exact hparties n

/-- The entry points of the room answer to its two parties only, in every run of a call. -/
structure Admits (room a b : Nat) (s : Store) : Prop where
  accept : ∀ sha256 sender connectionId clientMessageId body now
    (c : Config (Fin 1) Store Lock Exn Obs AcceptedMessage) m,
    Reached s now (fun _ => Market.accept sha256 room sender connectionId clientMessageId body) c →
    c.prog 0 = .ret m → sender = a ∨ sender = b
  history : ∀ user cursor limit now
    (c : Config (Fin 1) Store Lock Exn Obs (List HistoryMessage)) page,
    Reached s now (fun _ => historyAfter room user cursor limit) c → c.prog 0 = .ret page →
    user = a ∨ user = b
  presence : ∀ user active now (c : Config (Fin 1) Store Lock Exn Obs (List Nat)) peers,
    Reached s now (fun _ => authorizedPresencePeers room user active) c → c.prog 0 = .ret peers →
    user = a ∧ peers = [b] ∨ user = b ∧ peers = [a]

/-- **ROOMS ARE ISOLATED**: in every interleaving of the operations on rooms, the rows about
    rooms agree, and every room that is not global admits its two parties and nobody else. -/
theorem rooms_isolated {ι : Type} [DecidableEq ι] (ops : ι → RoomOp) {s : Store} {now : Time}
    {c : Config ι Store Lock Exn Obs Unit} (h : RoomInv s)
    (hr : Reached s now (fun i => (ops i).run) c) :
    RoomsAgree c.db ∧ ∀ r ∈ c.db.rooms, r.kind ≠ .global →
      ∃ a b, a ≠ b ∧ RoomParties r a b c.db ∧ Admits r.pk a b c.db := by
  have hinv := roomInv_reached ops h hr
  refine ⟨hinv.agree, fun r hroom hkind => ?_⟩
  obtain ⟨a, b, hparties, hne, -⟩ := hinv.parties hroom hkind
  have henv : ∀ s s' : Store, False → s' = s := fun _ _ h => h.elim
  refine ⟨a, b, hne, hparties, ?_, ?_, ?_⟩
  · intro sha256 sender connectionId clientMessageId body now c m hr he
    exact (returns_accept hinv hroom hkind hparties sha256 sender connectionId clientMessageId
      body).run Lock.conflicts_symm henv hr he
  · intro user cursor limit now c page hr he
    exact (returns_historyAfter hinv hroom hkind hparties user cursor limit).run
      Lock.conflicts_symm henv hr he
  · intro user active now c peers hr he
    exact (returns_authorizedPresencePeers hinv hroom hkind hparties user active).run
      Lock.conflicts_symm henv hr he

/-- A seller and a buyer. -/
def sellerAndBuyer : Store where
  users := [{ pk := 1, username := "seller_one" }, { pk := 2, username := "buyer_one" }]
  products := [{ pk := 3, owner := 1 }]

/-- Both open the direct room, and the buyer asks about the product. -/
def openRooms : Fin 3 → RoomOp
  | 0 => .directRoom 2 1
  | 1 => .directRoom 1 2
  | 2 => .productConversation 3 2

/-- The second request for the direct room waits for the users and finds the room of the
    first one. -/
theorem opened_rooms_isolated :
    ∃ c : Config (Fin 3) Store Lock Exn Obs Unit,
      Reached sellerAndBuyer 1000 (fun i => (openRooms i).run) c ∧
      c.db.rooms.map (·.kind) = [.direct, .product] ∧ RoomsAgree c.db ∧
      ∀ r ∈ c.db.rooms, r.kind ≠ .global →
        ∃ a b, a ≠ b ∧ RoomParties r a b c.db ∧ Admits r.pk a b c.db := by
  have hplay : (play validateBalancedJournal [.run 0 2 id, .run 1 100 (fun _ => 10),
      .run 0 100 (fun _ => 20), .run 2 100 (fun n => 30 + n)]
      (Config.start sellerAndBuyer 1000 fun i => (openRooms i).run)).map (fun c =>
        c.db.rooms.map (·.kind)) = some [.direct, .product] := by decide +kernel
  obtain ⟨c, hr, hkinds⟩ := reaches_of_play (D := postgres fun _ _ => False)
    (f := fun c => c.db.rooms.map (·.kind)) hplay
  exact ⟨c, hr, hkinds, rooms_isolated openRooms (roomInv_of_noRooms rfl rfl rfl (by decide)) hr⟩

end Market
