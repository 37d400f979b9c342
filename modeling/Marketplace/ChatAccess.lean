import Marketplace.ChatSpecs
import Marketplace.ReadRules

/-! # Who may write in a room

    `_require_message_accept_access` is a dozen statements, each of which reads the store
    and the clock for itself.  `mayAccept` is what it asks of one moment; a call that the
    check refuses has seen a moment at which `mayAccept` is false, and called alone the
    check lets in exactly those that `mayAccept` lets in. -/

namespace Market

open TxnProgram TxnInterleaving TxnMoments

variable {α : Type} {R : Time → Store → Prop} {F G : Exn → Prop} {s0 : Store}

/-! ## The rule -/

/-- The account of the row is active, and not dormant at the time `t`. -/
def partyActiveAt (u : User) (t : Time) (s : Store) : Bool :=
  effectiveAccountStatus u == .active && !(activeActions t s).any (·.isDormancyOf u.pk)

/-- The user is there and active. -/
def userActiveAt (user : Nat) (t : Time) (s : Store) : Bool :=
  (s.users.find? fun u => u.pk == user && u.isActive).any (partyActiveAt · t s)

/-- Both are there and active. -/
def partiesActiveAt (a b : Nat) (t : Time) (s : Store) : Bool :=
  let users := s.users.filter fun u => (u.pk == a || u.pk == b) && u.isActive
  users.length == 2 && users.all (partyActiveAt · t s)

/-- The product is there, not archived and not hidden. -/
def productVisibleAt (product : Nat) (t : Time) (s : Store) : Bool :=
  (s.products.any fun r => r.pk == product && r.archivedAt.isNone) &&
    !(activeActions t s).any (·.isHideOf product)

/-- The user is in the room. -/
def roomHas (row : Room) (user : Nat) (s : Store) : Bool :=
  match row.kind with
  | .global => true
  | .product => s.participants.any fun x => x.room == row.pk && x.user == user
  | .direct => row.directUserLow == some user || row.directUserHigh == some user

/-- The room has the two parties of its conversation, both active, and its product is
    visible and still the seller's. -/
def productRoomOpen (room : Nat) (t : Time) (s : Store) : Bool :=
  (joinProduct room s).any fun x =>
    isPartySet (participantIds room s) x.1 && x.2.owner == x.1.seller &&
      productVisibleAt x.1.product t s && (participantIds room s).all (userActiveAt · t s)

/-- The room lets the user in. -/
def mayEnter (row : Room) (user : Nat) (t : Time) (s : Store) : Bool :=
  roomHas row user s && (row.kind != .product || productRoomOpen row.pk t s)

/-- The conversation of the room is the sender's, between two active users, and about a
    product that the seller has not archived. -/
def partyOfProduct (room sender : Nat) (t : Time) (s : Store) : Bool :=
  (s.conversations.find? (·.room == room)).any fun c =>
    (sender == c.seller || sender == c.buyer) && partiesActiveAt c.seller c.buyer t s &&
      s.products.any fun r => r.pk == c.product && r.owner == c.seller && r.archivedAt.isNone

/-- The sender may write in the room at the time `t`. -/
def mayAccept (room sender : Nat) (t : Time) (s : Store) : Bool :=
  (s.rooms.find? (·.pk == room)).any fun row =>
    (if row.kind == .product then partyOfProduct room sender t s
      else userActiveAt sender t s) && mayEnter row sender t s

/-! ## What the statements of the check find -/

/-- The tables that the check reads are those of `s0`; sanctions and the clock may move. -/
structure SameRooms (s0 s : Store) : Prop where
  users : s.users = s0.users
  rooms : s.rooms = s0.rooms
  products : s.products = s0.products
  participants : s.participants = s0.participants
  conversations : s.conversations = s0.conversations

theorem SameRooms.refl (s : Store) : SameRooms s s := ⟨rfl, rfl, rfl, rfl, rfl⟩

theorem SameRooms.trans {s s' s'' : Store} (h : SameRooms s s') (h' : SameRooms s' s'') :
    SameRooms s s'' :=
  ⟨h'.users.trans h.users, h'.rooms.trans h.rooms, h'.products.trans h.products,
    h'.participants.trans h.participants, h'.conversations.trans h.conversations⟩

/-- A fault of the database, or the refusal of the chat for the reason `Q`. -/
def Refuses (F : Exn → Prop) (Q : Prop) (e : Exn) : Prop := F e ∨ e = chatUnavailable ∧ Q

/-- A check is passed at the moment, where there is one only. -/
def AtOnce (R : Time → Store → Prop) (check : Time → Store → Bool) : Prop :=
  ∀ t s, (∀ t' s', R t' s' ↔ t' = t ∧ s' = s) → check t s = true

/-- A fault of the database is one of the errors of a check. -/
theorem refuses_fault {Q : Prop} : ∀ e, F e → Refuses F Q e := fun _ => Or.inl

/-- The reason of a refusal may be weakened. -/
theorem Refuses.mono {Q Q' : Prop} {e : Exn} (h : Refuses F Q e) (hQ : Q → Q') :
    Refuses F Q' e := h.imp_right fun hq => ⟨hq.1, hQ hq.2⟩

/-- `except DoesNotExist` answers with the refusal of the chat, for the same reason. -/
theorem finds_orUnavailable {m : M α} {P : α → Prop} {Q : Prop} (hop : Operational F)
    (hm : Finds R F m P (Misses F Q)) : Finds R F (orUnavailable m) P (Refuses F Q) :=
  finds_exceptMissing hop hm refuses_fault fun hq => Or.inr ⟨rfl, hq⟩

/-- The dormancy of a user at the moment of its query. -/
theorem finds_effectiveUserStatus (hF : ∀ e, F e → G e) (user : Nat) :
    Finds R F (effectiveUserStatus user) (fun a => Sometime R fun t s =>
      a ≠ .active ↔ (activeActions t s).any (·.isDormancyOf user) = true) G := by
  refine Finds.bind (finds_fetchNow hF _) ?_
  rintro _ ⟨t, s, hs, rfl⟩
  refine Finds.ret ⟨t, s, hs, fun hne => ?_, fun hdormant => ?_⟩
  · by_contra hnot
    rw [if_neg hnot] at hne
    exact hne rfl
  · rw [if_pos hdormant]
    exact EffectiveUserStatus.noConfusion

/-- Active is who has not withdrawn and is not dormant. -/
theorem partyActiveAt_eq_false {u : User} {t : Time} {s : Store} :
    partyActiveAt u t s = false ↔ effectiveAccountStatus u ≠ .active ∨
      (activeActions t s).any (·.isDormancyOf u.pk) = true := by
  rw [partyActiveAt, Bool.and_eq_false_iff, beq_eq_false_iff_ne, Bool.not_eq_false']

theorem partyActiveAt_eq_true {u : User} {t : Time} {s : Store} :
    partyActiveAt u t s = true ↔ effectiveAccountStatus u = .active ∧
      ¬ (activeActions t s).any (·.isDormancyOf u.pk) = true := by
  rw [partyActiveAt, Bool.and_eq_true, beq_iff_eq, Bool.not_eq_true', Bool.not_eq_true]

/-- The row of a user, checked. -/
theorem finds_requireActiveParty {Q : Prop} (hsome : ∃ t s, R t s) (u : User)
    (hnot : ∀ t s, R t s → partyActiveAt u t s = false → Q) :
    Finds R F (requireActiveParty u)
      (fun _ => Sometime R fun t s => partyActiveAt u t s = true) (Refuses F Q) := by
  rw [requireActiveParty]
  split
  · next hstatus =>
      obtain ⟨t, s, hs⟩ := hsome
      refine Finds.raise (Or.inr ⟨rfl, hnot t s hs (partyActiveAt_eq_false.mpr (Or.inl ?_))⟩)
      exact bne_iff_ne.mp hstatus
  · next haccount =>
      rw [bne_iff_ne, not_not] at haccount
      refine Finds.bind (finds_effectiveUserStatus refuses_fault _) ?_
      rintro status ⟨t, s, hs, hstatus⟩
      refine (finds_raiseIf fun hne => Or.inr ⟨rfl, hnot t s hs (partyActiveAt_eq_false.mpr
        (Or.inr (hstatus.mp (bne_iff_ne.mp hne))))⟩).mono (fun _ hactive => ⟨t, s, hs, ?_⟩)
        fun _ he => he
      · refine partyActiveAt_eq_true.mpr ⟨haccount, fun hdormant => ?_⟩
        exact hstatus.mpr hdormant (bne_eq_false_iff_eq.mp hactive)

/-- The rows of the parties, checked one after the other. -/
theorem finds_requireActiveParties {Q : Prop} (hsome : ∃ t s, R t s) (users : List User)
    (hnot : ∀ u ∈ users, ∀ t s, R t s → partyActiveAt u t s = false → Q) :
    Finds R F (requireActiveParties users)
      (fun _ => ∀ u ∈ users, Sometime R fun t s => partyActiveAt u t s = true)
      (Refuses F Q) := by
  induction users with
  | nil => exact Finds.ret fun u hu => absurd hu List.not_mem_nil
  | cons u rest ih =>
      refine Finds.bind (finds_requireActiveParty hsome u (hnot u List.mem_cons_self))
        fun _ hu => ?_
      refine (ih fun x hx => hnot x (List.mem_cons_of_mem _ hx)).mono (fun _ hrest x hx => ?_)
        fun _ he => he
      rcases List.mem_cons.mp hx with rfl | hx
      · exact hu
      · exact hrest x hx

/-- The product is there and not hidden, each at its own moment. -/
theorem finds_effectiveProductVisibility {Q : Prop} (product : Nat)
    (hnot : ∀ t s, R t s → productVisibleAt product t s = false → Q) :
    Finds R F (effectiveProductVisibility product) (fun a => (a ≠ .visible → Q) ∧
      (a = .visible → AtOnce R (productVisibleAt product)))
      (Refuses F Q) := by
  refine Finds.bind (finds_fetch refuses_fault _) ?_
  rintro _ ⟨t, s, hs, rfl⟩
  refine Finds.bind (finds_fetchNow refuses_fault _) ?_
  rintro _ ⟨t', s', hs', rfl⟩
  refine Finds.ret ⟨fun hne => ?_, fun hvisible t0 s0 honly => ?_⟩
  · by_cases hhidden : (activeActions t' s').any (·.isHideOf product) = true
    · refine hnot t' s' hs' ?_
      rw [productVisibleAt, hhidden, Bool.not_true, Bool.and_false]
    · refine hnot t s hs ?_
      rw [productVisibleAt, Bool.and_eq_false_iff]
      left
      by_contra hthere
      rw [Bool.not_eq_false] at hthere
      rw [Bool.not_eq_true] at hhidden
      rw [hthere, hhidden] at hne
      exact hne rfl
  · obtain ⟨rfl, rfl⟩ := (honly t s).mp hs
    obtain ⟨rfl, rfl⟩ := (honly t' s').mp hs'
    by_contra hfalse
    rw [productVisibleAt, Bool.and_eq_true, Bool.not_eq_true', not_and_or, Bool.not_eq_true,
      Bool.not_eq_false] at hfalse
    rcases hfalse with hgone | hhidden
    · rw [hgone, Bool.not_false, Bool.or_true] at hvisible
      cases hvisible
    · rw [hhidden, Bool.true_or] at hvisible
      cases hvisible

section Access

variable (hop : Operational F) (hsome : ∃ t s, R t s) (hsame : ∀ t s, R t s → SameRooms s0 s)

include hop hsome hsame

/-- The user of a key, checked, with or without a lock. -/
theorem finds_requireActiveUser {Q : Prop} (user : Nat) (lock : Bool)
    (hnot : ∀ t s, R t s → userActiveAt user t s = false → Q) :
    Finds R F (requireActiveUser user lock)
      (fun _ => Sometime R fun t s => userActiveAt user t s = true) (Refuses F Q) := by
  have hrow : Finds R F (if lock then
        getForUpdate .user (·.users) (·.pk) fun u => u.pk == user && u.isActive
      else getRow .user fun s => s.users.find? fun u => u.pk == user && u.isActive)
      (fun u => (s0.users.find? fun u => u.pk == user && u.isActive) = some u)
      (Misses F Q) := by
    have hnone : ∀ t s, R t s → (s0.users.find? fun u => u.pk == user && u.isActive) = none →
        Q := by
      intro t s hs hnone
      refine hnot t s hs ?_
      rw [userActiveAt, (hsame t s hs).users, hnone]
      rfl
    cases lock with
    | true => exact finds_getForUpdate_same _ _ _ _ (fun t s hs => (hsame t s hs).users) hnone
    | false =>
        refine (finds_getRow _ _ fun t s hs hq => hnone t s hs ?_).mono ?_ fun _ he => he
        · rw [← (hsame t s hs).users]
          exact hq
        · rintro u ⟨t, s, hs, hu⟩
          rw [← (hsame t s hs).users]
          exact hu
  refine Finds.bind (finds_orUnavailable hop hrow) fun u hu => ?_
  have hpk : u.pk = user := by
    have hq := List.find?_some hu
    rw [Bool.and_eq_true, beq_iff_eq] at hq
    exact hq.1
  have hactive : ∀ t s, R t s → userActiveAt user t s = partyActiveAt u t s := by
    intro t s hs
    rw [userActiveAt, (hsame t s hs).users, hu]
    rfl
  split
  · next hstatus =>
      obtain ⟨t, s, hs⟩ := hsome
      refine Finds.raise (Or.inr ⟨rfl, hnot t s hs ?_⟩)
      rw [hactive t s hs, partyActiveAt_eq_false]
      exact Or.inl (bne_iff_ne.mp hstatus)
  · next haccount =>
      rw [bne_iff_ne, not_not] at haccount
      refine Finds.bind (finds_effectiveUserStatus refuses_fault _) ?_
      rintro status ⟨t, s, hs, hstatus⟩
      rw [← hpk] at hstatus
      split
      · next hne =>
          refine Finds.raise (Or.inr ⟨rfl, hnot t s hs ?_⟩)
          rw [hactive t s hs, partyActiveAt_eq_false]
          exact Or.inr (hstatus.mp (bne_iff_ne.mp hne))
      · next heq =>
          rw [bne_iff_ne, not_not] at heq
          refine Finds.ret ⟨t, s, hs, ?_⟩
          show userActiveAt user t s = true
          rw [hactive t s hs, partyActiveAt_eq_true]
          exact ⟨haccount, fun hdormant => hstatus.mpr hdormant heq⟩

/-- The users of a room, fetched and checked one after the other. -/
theorem finds_requireActiveUsers {Q : Prop} (users : List Nat)
    (hnot : ∀ n ∈ users, ∀ t s, R t s → userActiveAt n t s = false → Q) :
    Finds R F (requireActiveUsers users)
      (fun _ => ∀ n ∈ users, Sometime R fun t s => userActiveAt n t s = true)
      (Refuses F Q) := by
  induction users with
  | nil => exact Finds.ret fun n hn => absurd hn List.not_mem_nil
  | cons n rest ih =>
      refine Finds.bind (finds_requireActiveUser hop hsome hsame n false
        (hnot n List.mem_cons_self)) fun _ hn => ?_
      refine (ih fun x hx => hnot x (List.mem_cons_of_mem _ hx)).mono (fun _ hrest x hx => ?_)
        fun _ he => he
      rcases List.mem_cons.mp hx with rfl | hx
      · exact hn
      · exact hrest x hx

omit hop in
/-- Two users, locked and checked: their rows. -/
theorem finds_lockActiveParties {Q : Prop} (a b : Nat)
    (hnot : ∀ t s, R t s → partiesActiveAt a b t s = false → Q) :
    Finds R F (lockActiveParties a b) (fun users => users.length = 2 ∧
      users = (s0.users.filter fun u => (u.pk == a || u.pk == b) && u.isActive) ∧
      AtOnce R (partiesActiveAt a b)) (Refuses F Q) := by
  obtain ⟨t0, s1, hs1⟩ := hsome
  refine Finds.bind (finds_selectForUpdate_same refuses_fault _ _ _ _
    fun t s hs => (hsame t s hs).users) ?_
  rintro users ⟨husers, -⟩
  refine Finds.bind (finds_raiseIf fun hne => Or.inr ⟨rfl, hnot t0 s1 hs1 ?_⟩) fun _ hlen => ?_
  · rw [partiesActiveAt, (hsame t0 s1 hs1).users, ← husers]
    rw [bne, Bool.not_eq_true'] at hne
    rw [hne, Bool.false_and]
  · refine Finds.bind (finds_requireActiveParties ⟨t0, s1, hs1⟩ users
      fun u hu t s hs hparty => hnot t s hs ?_) fun _ hall => ?_
    · rw [partiesActiveAt, (hsame t s hs).users, ← husers, Bool.and_eq_false_iff]
      right
      rw [List.all_eq_false]
      exact ⟨u, hu, Bool.eq_false_iff.mp hparty⟩
    · have htwo : users.length = 2 := bne_eq_false_iff_eq.mp hlen
      refine Finds.ret ⟨htwo, husers, fun t s honly => ?_⟩
      have hs := (honly t s).mpr ⟨rfl, rfl⟩
      rw [partiesActiveAt, (hsame t s hs).users, ← husers, Bool.and_eq_true, beq_iff_eq,
        List.all_eq_true]
      exact ⟨htwo, fun u hu => (hall u hu).once t s honly⟩

/-- The part of the check about product rooms. -/
theorem finds_requireProductRoom {Q : Prop} (room : Nat)
    (hnot : ∀ t s, R t s → productRoomOpen room t s = false → Q) :
    Finds R F (requireProductRoom room true)
      (fun _ => AtOnce R (productRoomOpen room)) (Refuses F Q) := by
  have hjoin : ∀ t s, R t s → joinProduct room s = joinProduct room s0 := by
    intro t s hs
    rw [joinProduct, (hsame t s hs).conversations, (hsame t s hs).products]
    rfl
  have hids : ∀ t s, R t s → participantIds room s = participantIds room s0 := by
    intro t s hs
    rw [participantIds, (hsame t s hs).participants]
    rfl
  refine Finds.bind (finds_orUnavailable hop (finds_getRow (Q := Q) _ _ fun t s hs hnone =>
    hnot t s hs ?_)) ?_
  · rw [productRoomOpen, hnone]
    rfl
  rintro ⟨c, product⟩ ⟨t, s, hs, hx⟩
  rw [hjoin t s hs] at hx
  -- what the room is asked, once its conversation is known
  have hopen : ∀ t s, R t s → productRoomOpen room t s =
      (isPartySet (participantIds room s0) c && product.owner == c.seller &&
        productVisibleAt c.product t s && (participantIds room s0).all (userActiveAt · t s)) := by
    intro t s hs
    rw [productRoomOpen, hjoin t s hs, hx, hids t s hs]
    rfl
  refine Finds.bind (finds_fetch refuses_fault _) ?_
  rintro _ ⟨t1, s1, hs1, rfl⟩
  rw [hids t1 s1 hs1]
  refine Finds.bind (finds_raiseIf fun hbad => Or.inr ⟨rfl, hnot t1 s1 hs1 ?_⟩) fun _ hgood => ?_
  · rw [hopen t1 s1 hs1, ← Bool.not_eq_true, Bool.and_eq_true, Bool.and_eq_true,
      Bool.and_eq_true]
    rintro ⟨⟨⟨hparty, howner⟩, -⟩, -⟩
    rw [hparty, bne, howner] at hbad
    exact absurd hbad Bool.false_ne_true
  rw [Bool.or_eq_false_iff, Bool.not_eq_false', bne, Bool.not_eq_false'] at hgood
  refine Finds.bind (finds_effectiveProductVisibility c.product
    fun t s hs hhidden => hnot t s hs ?_) fun visibility ⟨hhide, hshow⟩ => ?_
  · rw [hopen t s hs, hhidden, Bool.and_false, Bool.false_and]
  refine Finds.bind (finds_raiseIf fun hne => Or.inr ⟨rfl, hhide (bne_iff_ne.mp hne)⟩)
    fun _ hvisible => ?_
  refine (finds_requireActiveUsers hop hsome hsame (participantIds room s0)
    fun n hn t s hs hidle => hnot t s hs ?_).mono (fun _ hall t s honly => ?_) fun _ he => he
  · rw [hopen t s hs, Bool.and_eq_false_iff]
    right
    rw [List.all_eq_false]
    exact ⟨n, hn, Bool.eq_false_iff.mp hidle⟩
  · rw [hopen t s ((honly t s).mpr ⟨rfl, rfl⟩), hgood.1, hgood.2,
      hshow (bne_eq_false_iff_eq.mp hvisible) t s honly, Bool.true_and, Bool.true_and,
      Bool.true_and, List.all_eq_true]
    exact fun n hn => (hall n hn).once t s honly

omit hop hsame in
/-- Whether a user is in a room that is there. -/
theorem finds_roomContainsUser {Q : Prop} (row : Room) (user : Nat)
    (hnot : ∀ t s, R t s → roomHas row user s = false → Q) :
    Finds R F (roomContainsUser row user) (fun contained => (contained = false → Q) ∧
      (contained = true → AtOnce R fun _ => roomHas row user)) (Refuses F Q) := by
  have hfrom : ∀ (x : Bool) t s, R t s → roomHas row user s = x → (x = false → Q) ∧
      (x = true → AtOnce R fun _ => roomHas row user) := by
    intro x t s hs hx
    refine ⟨fun hf => hnot t s hs (hx.trans hf), fun htrue t' s' honly => ?_⟩
    obtain ⟨rfl, rfl⟩ := (honly t s).mp hs
    exact hx.trans htrue
  obtain ⟨t0, s1, hs1⟩ := hsome
  rw [roomContainsUser]
  cases hkind : row.kind with
  | global =>
      refine Finds.ret (hfrom _ t0 s1 hs1 ?_)
      rw [roomHas, hkind]
  | product =>
      refine (finds_fetch refuses_fault _).mono ?_ fun _ he => he
      rintro _ ⟨t, s, hs, rfl⟩
      refine hfrom _ t s hs ?_
      rw [roomHas, hkind]
  | direct =>
      refine Finds.ret (hfrom _ t0 s1 hs1 ?_)
      rw [roomHas, hkind]

/-- `_require_room_access` of a room that is there. -/
theorem finds_requireRoomAccess {Q : Prop} {row : Room} (room user : Nat)
    (hrow : s0.rooms.find? (·.pk == room) = some row)
    (hnot : ∀ t s, R t s → mayEnter row user t s = false → Q) :
    Finds R F (requireRoomAccess room user true true)
      (fun _ => AtOnce R (mayEnter row user)) (Refuses F Q) := by
  refine Finds.bind (P := fun x => x = row) (finds_orUnavailable hop
    ((finds_getForUpdate_same (Q := Q) _ _ _ _ (fun t s hs => (hsame t s hs).rooms)
      fun _ _ _ hnone => ?_).mono (fun x hx => ?_) fun _ he => he)) fun x hx => ?_
  · rw [hrow] at hnone
    cases hnone
  · rw [hrow] at hx
    exact (Option.some.inj hx).symm
  rw [hx]
  refine Finds.bind (finds_roomContainsUser hsome row user fun t s hs hout => hnot t s hs ?_)
    fun contained ⟨hout, hin⟩ => ?_
  · rw [mayEnter, hout, Bool.false_and]
  refine Finds.bind (finds_raiseIf fun hc => Or.inr ⟨rfl, hout ?_⟩) fun _ hc => ?_
  · exact (Bool.not_eq_true' _).mp hc
  rw [Bool.not_eq_false'] at hc
  have hhas : ∀ t s, (∀ t' s', R t' s' ↔ t' = t ∧ s' = s) → roomHas row user s = true := hin hc
  split
  · next hkind =>
      refine Finds.bind (finds_requireProductRoom hop hsome hsame row.pk
        fun t s hs hclosed => hnot t s hs ?_) fun _ hopen => Finds.ret fun t s honly => ?_
      · rw [mayEnter, hclosed, bne, hkind, Bool.not_true, Bool.or_false, Bool.and_false]
      · rw [mayEnter, hhas t s honly, hopen t s honly, Bool.or_true, Bool.and_true]
  · next hkind =>
      refine Finds.ret fun t s honly => ?_
      rw [Bool.not_eq_true] at hkind
      rw [mayEnter, hhas t s honly, bne, hkind, Bool.not_false, Bool.true_or, Bool.and_true]

/-- The check of a product room, after its kind is known. -/
theorem finds_productAcceptAccess {Q : Prop} {row : Room} (hkeys : UserKeys s0)
    (room sender : Nat) (hrow : s0.rooms.find? (·.pk == room) = some row)
    (hparty : ∀ t s, R t s → partyOfProduct room sender t s = false → Q)
    (henter : ∀ t s, R t s → mayEnter row sender t s = false → Q) :
    Finds R F (productAcceptAccess room sender)
      (fun _ => AtOnce R (partyOfProduct room sender) ∧ AtOnce R (mayEnter row sender))
      (Refuses F Q) := by
  refine Finds.bind (finds_orUnavailable hop (finds_getRow (Q := Q) _ _
    fun t s hs hnone => hparty t s hs ?_)) ?_
  · rw [partyOfProduct, hnone]
    rfl
  rintro c ⟨t0, s1, hs1, hc⟩
  rw [(hsame t0 s1 hs1).conversations] at hc
  have hasked : ∀ t s, R t s → partyOfProduct room sender t s =
      ((sender == c.seller || sender == c.buyer) && partiesActiveAt c.seller c.buyer t s &&
      s0.products.any fun r =>
        r.pk == c.product && r.owner == c.seller && r.archivedAt.isNone) := by
    intro t s hs
    rw [partyOfProduct, (hsame t s hs).conversations, hc, (hsame t s hs).products]
    rfl
  have hcroom : c.room = room := by
    have hq := List.find?_some hc
    exact beq_iff_eq.mp hq
  refine Finds.bind (finds_raiseIf fun hother => Or.inr ⟨rfl, hparty t0 s1 hs1 ?_⟩)
    fun _ hmine => ?_
  · rw [Bool.and_eq_true, bne_iff_ne, bne_iff_ne] at hother
    rw [hasked t0 s1 hs1, beq_eq_false_iff_ne.mpr hother.1, beq_eq_false_iff_ne.mpr hother.2,
      Bool.or_false, Bool.false_and, Bool.false_and]
  have hn : sender = c.seller ∨ sender = c.buyer := by
    rw [Bool.and_eq_false_iff, bne_eq_false_iff_eq, bne_eq_false_iff_eq] at hmine
    exact hmine
  refine Finds.bind (finds_lockActiveParties hsome hsame c.seller c.buyer
    fun t s hs hidle => hparty t s hs ?_) ?_
  · rw [hasked t s hs, hidle, Bool.and_false, Bool.false_and]
  rintro users ⟨hlen, husers, hactive⟩
  refine Finds.bind (P := fun _ => (s0.products.any fun r =>
    r.pk == c.product && r.owner == c.seller && r.archivedAt.isNone) = true)
    (finds_orUnavailable hop ?_) fun _ hproduct => ?_
  · refine Finds.bind (finds_getForUpdate_same _ _ _ _ (fun t s hs => (hsame t s hs).products)
      fun t s hs hnone => hparty t s hs ?_) fun product hproduct => ?_
    · rw [hasked t s hs, Bool.and_eq_false_iff]
      right
      rw [List.any_eq_false]
      exact List.find?_eq_none.mp hnone
    refine Finds.bind (finds_getForUpdate_same _ _ _ _
      (fun t s hs => (hsame t s hs).conversations) fun t s hs hnone => ?_) fun _ _ =>
        Finds.ret ?_
    · -- the conversation is still the one that was found
      have hself := List.find?_eq_none.mp hnone c (List.mem_of_find?_eq_some hc)
      simp [hcroom] at hself
    · have hq := List.find?_some hproduct
      exact List.any_eq_true.mpr ⟨product, List.mem_of_find?_eq_some hproduct, hq⟩
  refine Finds.bind (finds_requireRoomAccess hop hsome hsame room sender hrow henter)
    fun _ henters => ?_
  refine Finds.bind (P := fun _ => True) ?_ fun _ _ =>
    Finds.ret ⟨fun t s honly => ?_, henters⟩
  · -- both rows are there, so that one of them is the sender's
    obtain ⟨u, hu, hpk⟩ : ∃ u ∈ users, u.pk = sender := by
      refine mem_of_two hkeys ?_ hlen (fun u hu => ?_) hn
      · rw [husers]
        exact List.filter_sublist
      · rw [husers, List.mem_filter, Bool.and_eq_true, Bool.or_eq_true, beq_iff_eq,
          beq_iff_eq] at hu
        exact hu.2.1
    rw [nextUser]
    cases hfind : users.find? (·.pk == sender) with
    | some x => exact Finds.ret trivial
    | none => exact absurd (beq_iff_eq.mpr hpk) (List.find?_eq_none.mp hfind u hu)
  · rw [hasked t s ((honly t s).mpr ⟨rfl, rfl⟩), hactive t s honly, hproduct, Bool.and_true,
      Bool.and_true, Bool.or_eq_true, beq_iff_eq, beq_iff_eq]
    exact hn

/-- **ACCESS**: a call that the check refuses has seen a moment at which its sender may not
    write in the room; and one that it lets in at a single moment may. -/
theorem finds_requireMessageAcceptAccess (hkeys : UserKeys s0) (room sender : Nat) :
    Finds R F (requireMessageAcceptAccess room sender)
      (fun _ => AtOnce R (mayAccept room sender))
      (Refuses F (Sometime R fun t s => mayAccept room sender t s = false)) := by
  have hrooms : ∀ t s, R t s → s.rooms = s0.rooms := fun t s hs => (hsame t s hs).rooms
  refine Finds.bind (finds_orUnavailable hop (finds_getRow
    (Q := Sometime R fun t s => mayAccept room sender t s = false) _ _
    fun t s hs hnone => ⟨t, s, hs, ?_⟩)) ?_
  · rw [Option.map_eq_none_iff] at hnone
    show mayAccept room sender t s = false
    rw [mayAccept, hnone]
    rfl
  rintro kind ⟨t0, s1, hs1, hkind⟩
  obtain ⟨row, hrow, rfl⟩ := Option.map_eq_some_iff.mp hkind
  rw [hrooms t0 s1 hs1] at hrow
  have hasked : ∀ t s, R t s → mayAccept room sender t s =
      ((if row.kind == .product then partyOfProduct room sender t s
        else userActiveAt sender t s) && mayEnter row sender t s) := by
    intro t s hs
    rw [mayAccept, hrooms t s hs, hrow]
    rfl
  have hnot : ∀ t s, R t s → mayAccept room sender t s = false →
      Sometime R fun t s => mayAccept room sender t s = false :=
    fun t s hs hfalse => ⟨t, s, hs, hfalse⟩
  have henter : ∀ t s, R t s → mayEnter row sender t s = false →
      Sometime R fun t s => mayAccept room sender t s = false := by
    intro t s hs hout
    refine hnot t s hs ?_
    rw [hasked t s hs, hout, Bool.and_false]
  split
  · next hne =>
      rw [bne, Bool.not_eq_true'] at hne
      have hother : ¬ (row.kind == .product) = true := Bool.eq_false_iff.mp hne
      refine Finds.bind (finds_requireActiveUser hop hsome hsame sender true
        fun t s hs hidle => hnot t s hs ?_) fun _ hactive => ?_
      · rw [hasked t s hs, if_neg hother, hidle, Bool.false_and]
      · refine Finds.bind (finds_requireRoomAccess hop hsome hsame room sender hrow henter)
          fun _ henters => Finds.ret fun t s honly => ?_
        rw [hasked t s ((honly t s).mpr ⟨rfl, rfl⟩), if_neg hother,
          hactive.once t s honly, henters t s honly, Bool.and_true]
  · next heq =>
      rw [bne, Bool.not_eq_true', Bool.not_eq_false] at heq
      refine (finds_productAcceptAccess hop hsome hsame hkeys room sender hrow
        (fun t s hs hout => hnot t s hs ?_) henter).mono
        (fun _ ⟨hparty, henters⟩ t s honly => ?_) fun _ he => he
      · rw [hasked t s hs, if_pos heq, hout, Bool.false_and]
      · rw [hasked t s ((honly t s).mpr ⟨rfl, rfl⟩), if_pos heq, hparty t s honly,
          henters t s honly, Bool.and_true]

end Access

/-- **THE CHECK ITSELF**: called alone, it lets in whoever may write in the room. -/
theorem mayAccept_iff {s : Store} (hkeys : UserKeys s) (room sender : Nat) (ids : Nat → Nat)
    (t : Time) : (∃ x, (call (atomic (requireMessageAcceptAccess room sender)) ids t s).1 = .ok x) ↔
      mayAccept room sender t s = true := by
  have hsame : ∀ t' s', t' = t ∧ s' = s → SameRooms s s' := by
    rintro t' s' ⟨-, rfl⟩
    exact ⟨rfl, rfl, rfl, rfl, rfl⟩
  have hfinds := (reads_call (m := atomic (requireMessageAcceptAccess room sender)) ids
    (Finds.atomic (fun _ he => refuses_fault _ he)
      (finds_requireMessageAcceptAccess (R := fun t' s' => t' = t ∧ s' = s) (F := fun _ => False)
        (fun _ he => False.elim he) ⟨t, s, rfl, rfl⟩ hsame hkeys room sender)) ⟨rfl, rfl⟩).1
  generalize (call (atomic (requireMessageAcceptAccess room sender)) ids t s).1 = r at hfinds
  cases r with
  | ok x =>
      have hmay : mayAccept room sender t s = true := hfinds t s fun _ _ => Iff.rfl
      exact ⟨fun _ => hmay, fun _ => ⟨x, rfl⟩⟩
  | error e =>
      rcases hfinds with hf | ⟨-, t', s', ⟨rfl, rfl⟩, hnot⟩
      · exact False.elim hf
      · constructor
        · rintro ⟨x, hx⟩
          cases hx
        · intro hmay
          rw [hnot] at hmay
          cases hmay

end Market
