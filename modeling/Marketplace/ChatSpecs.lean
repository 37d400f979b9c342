import Mathlib.Data.List.Sort
import Marketplace.Chat
import Marketplace.TxnInvariants
import Marketplace.UserRuns

/-! # What the acceptance of a message does

    The access check locks the sender, the parties of a product room, and the room.
    Under the lock of the sender the messages of the sender stay as they are, so that
    the counts of the rate limits are still right when the message is committed. -/

namespace Market

open TxnProgram TxnInterleaving TxnLogic TxnProtection TxnSoundness TxnBody TxnFrames
  TxnInvariants

variable {p : Platform} {Γ : Ctx Store Lock Exn Obs} {w w' : World Store Lock Obs}
  {s s' : Store} {held : List Lock} {F : Exn → Prop} {α : Type}

/-! ## Writes -/

/-- A new message, under the lock of its sender. -/
theorem respects_addMessage {m : ChatMessage} (hpk : .unique (.pk .message m.pk) ∈ held)
    (hkey : .unique (.clientMessage m.room m.sender m.clientMessageId) ∈ held)
    (hlock : .row .user m.sender ∈ held) : Respects p held s (addMessage m s) := by
  refine Respects.of_table .message ?_ { Keeps.refl s with messages := ?_ } ?_ ?_ ?_
  · intro t ht
    cases t <;> first | rfl | exact absurd rfl ht
  · show _ <+: (s.messages ++ [m]).map ChatMessage.accepted
    rw [List.map_append]
    exact List.prefix_append _ _
  · intro t n ht ho
    cases t with
    | user =>
        refine ⟨RowStays.refl _ _ _, rfl, { OwnedSame.refl n s with messages := ?_ }⟩
        show ((s.messages ++ [m]).filter (·.sender == n)).map ChatMessage.accepted = _
        have hne : (m.sender == n) = false := by
          refine beq_eq_false_iff_ne.mpr fun hn => ?_
          rw [← hn] at ho
          exact not_open_row hlock ho
        rw [List.filter_append, List.filter_cons_of_neg (by rw [hne]; exact Bool.false_ne_true),
          List.filter_nil, List.append_nil]
    | _ => exact absurd ht (by decide)
  · exact fun _ _ ht => absurd ht (by decide)
  · intro i hi ho h
    cases i with
    | pk t n =>
        cases hi
        exact index_of_append ho (fun hq => by rw [← eq_of_beq hq]; exact hpk) h
    | clientMessage r u k =>
        refine index_of_append ho (fun hq => ?_) h
        rw [Bool.and_eq_true, Bool.and_eq_true] at hq
        rw [← eq_of_beq hq.1.1, ← eq_of_beq hq.1.2, ← eq_of_beq hq.2]
        exact hkey
    | _ => exact nomatch hi

/-- The state of a delivery is not a part of what was accepted. -/
theorem setDelivery_accepted (n : Nat) (d : DeliveryState) (s : Store) :
    (setDelivery n d s).messages.map ChatMessage.accepted =
      s.messages.map ChatMessage.accepted := by
  rw [setDelivery, List.map_map]
  refine List.map_congr_left fun m _ => ?_
  show ChatMessage.accepted (if m.pk = n then { m with delivery := d } else m) = _
  split <;> rfl

/-- What a list of messages is asked that does not look at the delivery. -/
theorem filter_accepted {q : ChatMessage → Bool} (hq : ∀ m, q m.accepted = q m)
    (l : List ChatMessage) :
    (l.filter q).map ChatMessage.accepted = (l.map ChatMessage.accepted).filter q := by
  rw [List.filter_map]
  congr 1
  exact List.filter_congr fun m _ => (hq m).symm

/-- Conditions on messages that do not ask for the delivery. -/
theorem any_accepted {q : ChatMessage → Bool} (hq : ∀ m, q m.accepted = q m)
    (l : List ChatMessage) : l.any q = (l.map ChatMessage.accepted).any q := by
  rw [List.any_map]
  congr 1
  exact funext fun m => (hq m).symm

/-- The delivery of a message is set without a lock. -/
theorem respects_setDelivery {n : Nat} {d : DeliveryState} :
    Respects p held s (setDelivery n d s) := by
  have hsame := setDelivery_accepted n d s
  refine Respects.of_table .message ?_ { Keeps.refl s with messages := ?_ } ?_ ?_ ?_
  · intro t ht
    cases t <;> first | rfl | exact absurd rfl ht
  · rw [hsame]
  · intro t m ht _
    cases t with
    | user =>
        refine ⟨RowStays.refl _ _ _, rfl, { OwnedSame.refl m s with messages := ?_ }⟩
        rw [filter_accepted (fun _ => rfl), filter_accepted (fun _ => rfl), hsame]
    | _ => exact absurd ht (by decide)
  · exact fun _ _ ht => absurd ht (by decide)
  · intro i hi _ h
    have same : ∀ {q : ChatMessage → Bool}, (∀ m, q m.accepted = q m) →
        (setDelivery n d s).messages.any q = s.messages.any q := by
      intro q hq
      rw [any_accepted hq, hsame, ← any_accepted hq]
    cases i with
    | pk t m =>
        cases hi
        exact (same fun _ => rfl).trans h
    | clientMessage r u k => exact (same fun _ => rfl).trans h
    | _ => exact nomatch hi

/-- An attempt to publish leaves the tables alone. -/
theorem respects_addPublished {n : Nat} : Respects p held s (addPublished n s) :=
  Respects.of_free (fun t => by cases t <;> rfl)
    { Keeps.refl s with published := List.prefix_append _ _ }

/-! ## Access -/

/-- A row that is missing makes the chat unavailable. -/
theorem look_orUnavailable (hΓ : Lawful Γ) {m : M α} {P : α → World Store Lock Obs → Prop}
    (hF : F chatUnavailable)
    (hm : Look Γ m w P fun e => (∃ t, e = .doesNotExist t) ∨ F e) :
    Look Γ (orUnavailable m) w P F := by
  refine Look.tryCatch hΓ hm fun e w1 _ he => ?_
  rcases he with ⟨t, rfl⟩ | he
  · exact Look.raise hΓ hF
  · cases e with
    | doesNotExist t => exact Look.raise hΓ hF
    | _ => exact Look.raise hΓ he

/-- A party is checked for its status. -/
theorem look_requireActiveParty (hΓ : Lawful Γ) (hF : Faults Γ F) (hchat : F chatUnavailable)
    (user : User) : Look Γ (requireActiveParty user) w (fun _ _ => True) F := by
  rw [requireActiveParty]
  split
  · exact Look.raise hΓ hchat
  · exact Look.bind hΓ (look_effectiveUserStatus hΓ hF _ _) fun _ _ _ _ =>
      (look_raiseIf hΓ fun _ => hchat).mono fun _ _ _ _ => trivial

/-- Each party is. -/
theorem look_requireActiveParties (hΓ : Lawful Γ) (hF : Faults Γ F) (hchat : F chatUnavailable)
    (users : List User) : Look Γ (requireActiveParties users) w (fun _ _ => True) F := by
  induction users generalizing w with
  | nil => exact Look.ret hΓ trivial
  | cons user rest ih =>
      exact Look.bind hΓ (look_requireActiveParty hΓ hF hchat user) fun _ _ _ _ => ih

/-- A user is found, locked if asked for, and checked. -/
theorem look_requireActiveUser (hΓ : Lawful Γ) (hF : Faults Γ F) (hchat : F chatUnavailable)
    (user : Nat) (lock : Bool) :
    Look Γ (requireActiveUser user lock) w
      (fun _ w' => lock = true → .row .user user ∈ w'.sess.held) F := by
  have hget : Look Γ (if lock then
        getForUpdate .user (·.users) (·.pk) fun u => u.pk == user && u.isActive
      else getRow .user fun s => s.users.find? fun u => u.pk == user && u.isActive) w
      (fun _ w' => lock = true → .row .user user ∈ w'.sess.held)
      fun e => (∃ t, e = .doesNotExist t) ∨ F e := by
    cases lock with
    | true =>
        refine (look_getForUpdate hΓ (fun e he => Or.inr (hF e he)) _ _ _ _
          (Or.inl ⟨_, rfl⟩)).mono fun row w1 _ ⟨_, hq, hl⟩ _ => ?_
        rw [Bool.and_eq_true, beq_iff_eq] at hq
        rw [← hq.1]
        exact hl
    | false =>
        exact (look_getRow hΓ (fun e he => Or.inr (hF e he)) _ _ (Or.inl ⟨_, rfl⟩)).mono
          fun _ _ _ _ h => nomatch h
  refine Look.bind hΓ (look_orUnavailable hΓ hchat hget) fun row w1 _ hl => ?_
  split
  · exact Look.raise hΓ hchat
  · refine Look.bind hΓ (look_effectiveUserStatus hΓ hF _ _) fun _ w2 h2 _ => ?_
    split
    · exact Look.raise hΓ hchat
    · exact Look.ret hΓ fun hlock => h2.held (hl hlock)

/-- So is each user. -/
theorem look_requireActiveUsers (hΓ : Lawful Γ) (hF : Faults Γ F) (hchat : F chatUnavailable)
    (users : List Nat) : Look Γ (requireActiveUsers users) w (fun _ _ => True) F := by
  induction users generalizing w with
  | nil => exact Look.ret hΓ trivial
  | cons user rest ih =>
      exact Look.bind hΓ (look_requireActiveUser hΓ hF hchat user false) fun _ _ _ _ => ih

/-- Two rows of these users, locked. -/
theorem look_lockActiveParties (hΓ : Lawful Γ) (hF : Faults Γ F) (hchat : F chatUnavailable)
    (a b : Nat) : Look Γ (lockActiveParties a b) w (fun users w' => users.length = 2 ∧
      (∀ u ∈ users, (u.pk = a ∨ u.pk = b) ∧ .row .user u.pk ∈ w'.sess.held) ∧
      ∃ w1, Still Γ w w1 ∧ Still Γ w1 w' ∧ users.Sublist w1.view.users) F := by
  refine Look.bind hΓ (look_selectForUpdate hΓ hF _ _ _ _) fun users w1 h1 hrows => ?_
  refine Look.bind hΓ (look_raiseIf hΓ fun _ => hchat) fun _ w2 h2 hlen => ?_
  refine Look.bind hΓ (look_requireActiveParties hΓ hF hchat users) fun _ w3 h3 _ => ?_
  refine Look.ret hΓ ⟨?_, fun u hu => ?_, w1, h1, h2.trans hΓ h3, ?_⟩
  · simpa using hlen
  · have hq := (hrows.mem hu).2
    rw [Bool.and_eq_true, Bool.or_eq_true, beq_iff_eq, beq_iff_eq] at hq
    exact ⟨hq.1, h3.held (h2.held (hrows.held u hu))⟩
  · obtain ⟨w0, -, -, hfound⟩ := hrows.result
    rw [hfound]
    exact List.filter_sublist

/-- What `contains_user` answers yes to. -/
def InRoom (room : Room) (user : Nat) (s : Store) : Prop :=
  match room.kind with
  | .global => True
  | .product => ∃ x ∈ s.participants, x.room = room.pk ∧ x.user = user
  | .direct => room.directUserLow = some user ∨ room.directUserHigh = some user

/-- The room that `_require_room_access` returns. -/
structure Entered (Γ : Ctx Store Lock Exn Obs) (room user : Nat) (lock : Bool) (row : Room)
    (w w' : World Store Lock Obs) : Prop where
  pk : row.pk = room
  found : ∃ w1, Still Γ w w1 ∧ Still Γ w1 w' ∧ row ∈ w1.view.rooms
  held : lock = true → .row .room room ∈ w'.sess.held
  contains : ∃ w1, Still Γ w w1 ∧ Still Γ w1 w' ∧ InRoom row user w1.view

/-- A user who is let in is in the room. -/
theorem look_roomContainsUser (hΓ : Lawful Γ) (hF : Faults Γ F) (room : Room) (user : Nat) :
    Look Γ (roomContainsUser room user) w
      (fun r w' => r = true → InRoom room user w'.view) F := by
  rw [roomContainsUser]
  split
  · next hkind =>
      refine Look.ret hΓ fun _ => ?_
      rw [InRoom, hkind]
      trivial
  · next hkind =>
      refine (look_fetch hF _).mono fun r w1 _ hr htrue => ?_
      rw [hr, List.any_eq_true] at htrue
      obtain ⟨x, hx, hq⟩ := htrue
      rw [Bool.and_eq_true, beq_iff_eq, beq_iff_eq] at hq
      rw [InRoom, hkind]
      exact ⟨x, hx, hq⟩
  · next hkind =>
      refine Look.ret hΓ fun htrue => ?_
      rw [Bool.or_eq_true, beq_iff_eq, beq_iff_eq] at htrue
      rw [InRoom, hkind]
      exact htrue

/-- A product room is open for its product and its parties. -/
theorem look_requireProductRoom (hΓ : Lawful Γ) (hF : Faults Γ F) (hchat : F chatUnavailable)
    (room : Nat) (active : Bool) :
    Look Γ (requireProductRoom room active) w (fun _ _ => True) F := by
  refine Look.bind hΓ (look_orUnavailable hΓ hchat (look_getRow hΓ
    (fun e he => Or.inr (hF e he)) _ _ (Or.inl ⟨_, rfl⟩))) fun row w1 _ _ => ?_
  obtain ⟨c, product⟩ := row
  refine Look.bind hΓ (look_fetch hF _) fun _ w2 _ _ => ?_
  refine Look.bind hΓ (look_raiseIf hΓ fun _ => hchat) fun _ w3 _ _ => ?_
  refine Look.bind hΓ (look_effectiveProductVisibility hΓ hF _ _) fun _ w4 _ _ => ?_
  refine Look.bind hΓ (look_raiseIf hΓ fun _ => hchat) fun _ w5 _ _ => ?_
  split
  · exact look_requireActiveUsers hΓ hF hchat _
  · exact Look.ret hΓ trivial

/-- **SPECIFICATION** of the access to a room. -/
theorem look_requireRoomAccess (hΓ : Lawful Γ) (hF : Faults Γ F) (hchat : F chatUnavailable)
    (room user : Nat) (lock active : Bool) :
    Look Γ (requireRoomAccess room user lock active) w
      (fun row w' => Entered Γ room user lock row w w') F := by
  have hget : Look Γ (if lock then getForUpdate .room (·.rooms) (·.pk) (·.pk == room)
        else getRow .room fun s => s.rooms.find? (·.pk == room)) w
      (fun row w' => row.pk = room ∧ row ∈ w'.view.rooms ∧
        (lock = true → .row .room room ∈ w'.sess.held))
      fun e => (∃ t, e = .doesNotExist t) ∨ F e := by
    cases lock with
    | true =>
        refine (look_getForUpdate hΓ (fun e he => Or.inr (hF e he)) _ _ _ _
          (Or.inl ⟨_, rfl⟩)).mono fun row w1 _ ⟨hrow, hq, hl⟩ => ?_
        rw [beq_iff_eq] at hq
        refine ⟨hq, hrow, fun _ => ?_⟩
        rw [← hq]
        exact hl
    | false =>
        refine (look_getRow hΓ (fun e he => Or.inr (hF e he)) _ _ (Or.inl ⟨_, rfl⟩)).mono
          fun row w1 _ hrow => ⟨?_, List.mem_of_find?_eq_some hrow, fun h => nomatch h⟩
        have hq := List.find?_some hrow
        rw [beq_iff_eq] at hq
        exact hq
  refine Look.bind hΓ (look_orUnavailable hΓ hchat hget) fun row w1 h1 ⟨hpk, hrow, hl⟩ => ?_
  refine Look.bind hΓ (look_roomContainsUser hΓ hF row user) fun contained w2 h2 hin => ?_
  refine Look.bind hΓ (look_raiseIf hΓ fun _ => hchat) fun _ w3 h3 hyes => ?_
  have hin : InRoom row user w2.view := by
    refine hin ?_
    cases contained with
    | true => rfl
    | false => exact nomatch hyes
  have entered : ∀ {w4 : World Store Lock Obs}, Still Γ w3 w4 →
      Entered Γ room user lock row w w4 := by
    intro w4 h4
    have h24 : Still Γ w2 w4 := h3.trans hΓ h4
    exact ⟨hpk, ⟨w1, h1, h2.trans hΓ h24, hrow⟩, fun hlock => h24.held (h2.held (hl hlock)),
      w2, h1.trans hΓ h2, h24, hin⟩
  split
  · exact Look.bind hΓ (look_requireProductRoom hΓ hF hchat _ _) fun _ w4 h4 _ =>
      Look.ret hΓ (entered h4)
  · exact Look.ret hΓ (entered (Still.refl hΓ w3))

/-- What the access check of `accept` locked, and that it let the sender in. -/
structure Admitted (Γ : Ctx Store Lock Exn Obs) (room sender : Nat) (row : Room)
    (w w' : World Store Lock Obs) : Prop where
  senderLock : .row .user sender ∈ w'.sess.held
  roomLock : .row .room room ∈ w'.sess.held
  entered : ∃ w1, Still Γ w w1 ∧ Entered Γ room sender true row w1 w'

/-- `next` of a generator over the users. -/
theorem look_nextUser (hΓ : Lawful Γ) (users : List User) (user : Nat)
    (hF : (∀ u ∈ users, u.pk ≠ user) → F (.outside "StopIteration")) :
    Look Γ (nextUser users user) w (fun u w' => w' = w ∧ u ∈ users ∧ u.pk = user) F := by
  rw [nextUser]
  split
  · next u hu =>
      have hq := List.find?_some hu
      rw [beq_iff_eq] at hq
      exact Look.ret hΓ ⟨rfl, List.mem_of_find?_eq_some hu, hq⟩
  · next hnone =>
      refine Look.raise hΓ (hF fun u hu hpk => ?_)
      exact absurd (beq_iff_eq.mpr hpk) (List.find?_eq_none.mp hnone u hu)

/-- Two rows of two users are the rows of both. -/
theorem mem_of_two {users rows : List User} {a b n : Nat} (hkeys : (rows.map (·.pk)).Nodup)
    (hsub : users.Sublist rows) (hlen : users.length = 2)
    (hpks : ∀ u ∈ users, u.pk = a ∨ u.pk = b) (hn : n = a ∨ n = b) :
    ∃ u ∈ users, u.pk = n := by
  have hnodup : (users.map (·.pk)).Nodup := hkeys.sublist (hsub.map _)
  obtain ⟨u, v, rfl⟩ := List.length_eq_two.mp hlen
  have hne : u.pk ≠ v.pk := by
    rw [List.map_cons, List.nodup_cons] at hnodup
    exact fun h => hnodup.1 (List.mem_map.mpr ⟨v, List.mem_singleton.mpr rfl, h.symm⟩)
  have hu := hpks u List.mem_cons_self
  have hv := hpks v (List.mem_cons_of_mem _ List.mem_cons_self)
  by_cases h : u.pk = n
  · exact ⟨u, List.mem_cons_self, h⟩
  · refine ⟨v, List.mem_cons_of_mem _ List.mem_cons_self, ?_⟩
    omega

/-- To write in a product room locks its parties. -/
theorem look_productAcceptAccess (hΓ : Lawful Γ) (hF : Faults Γ F) (hchat : F chatUnavailable)
    (room sender : Nat)
    (hstop : ∀ w1, Still Γ w w1 → ¬ UserKeys w1.view → F (.outside "StopIteration")) :
    Look Γ (productAcceptAccess room sender) w
      (fun r w' => Admitted Γ room sender r.2 w w') F := by
  have hor : Faults Γ fun e => (∃ t, e = .doesNotExist t) ∨ F e := fun e he => Or.inr (hF e he)
  refine Look.bind hΓ (look_orUnavailable hΓ hchat (look_getRow hΓ hor _ _ (Or.inl ⟨_, rfl⟩)))
    fun c w1 h1 _ => ?_
  refine Look.bind hΓ (look_raiseIf hΓ fun _ => hchat) fun _ w2 h2 hparty => ?_
  refine Look.bind hΓ (look_lockActiveParties hΓ hF hchat c.seller c.buyer)
    fun users w3 h3 ⟨hlen, husers, w0, h20, h03, hsub⟩ => ?_
  have h02 : Still Γ w w2 := h1.trans hΓ h2
  refine Look.bind hΓ (P := fun _ _ => True) (look_orUnavailable hΓ hchat ?_) fun _ w4 h4 _ => ?_
  · refine Look.bind hΓ (look_getForUpdate hΓ hor _ _ _ _ (Or.inl ⟨_, rfl⟩)) fun _ w4 h4 _ => ?_
    refine Look.bind hΓ (look_getForUpdate hΓ hor _ _ _ _ (Or.inl ⟨_, rfl⟩)) fun _ w5 h5 _ => ?_
    exact Look.ret hΓ trivial
  refine Look.bind hΓ (look_requireRoomAccess hΓ hF hchat room sender true true)
    fun row w5 h5 hentered => ?_
  have h35 : Still Γ w3 w5 := h4.trans hΓ h5
  refine Look.bind hΓ (look_nextUser hΓ users sender fun hnone => ?_)
    fun user w6 h6 ⟨hw, hu, hpk⟩ => Look.ret hΓ ⟨?_, ?_, w4, ?_, ?_⟩
  · -- both rows are there, so that one of them is the sender's
    refine hstop w0 (h02.trans hΓ h20) fun hkeys => ?_
    have hn : sender = c.seller ∨ sender = c.buyer := by
      rw [Bool.and_eq_false_iff, bne_eq_false_iff_eq, bne_eq_false_iff_eq] at hparty
      exact hparty
    obtain ⟨u, hu, hpk⟩ := mem_of_two hkeys hsub hlen (fun u hu => (husers u hu).1) hn
    exact hnone u hu hpk
  · rw [hw, ← hpk]
    exact h35.held (husers user hu).2
  · rw [hw]
    exact hentered.held rfl
  · exact (h02.trans hΓ h3).trans hΓ h4
  · rw [hw]
    exact hentered

/-- **SPECIFICATION** of the access for a message. -/
theorem look_requireMessageAcceptAccess (hΓ : Lawful Γ) (hF : Faults Γ F)
    (hchat : F chatUnavailable) (room sender : Nat)
    (hstop : ∀ w1, Still Γ w w1 → ¬ UserKeys w1.view → F (.outside "StopIteration")) :
    Look Γ (requireMessageAcceptAccess room sender) w
      (fun r w' => Admitted Γ room sender r.2 w w') F := by
  refine Look.bind hΓ (look_orUnavailable hΓ hchat (look_getRow hΓ
    (fun e he => Or.inr (hF e he)) _ _ (Or.inl ⟨_, rfl⟩))) fun kind w1 h1 _ => ?_
  split
  · refine Look.bind hΓ (look_requireActiveUser hΓ hF hchat sender true) fun user w2 h2 hl => ?_
    refine Look.bind hΓ (look_requireRoomAccess hΓ hF hchat room sender true true)
      fun row w3 h3 hentered => Look.ret hΓ ⟨h3.held (hl rfl), hentered.held rfl, w2, ?_,
        hentered⟩
    exact h1.trans hΓ h2
  · refine (look_productAcceptAccess hΓ hF hchat room sender fun w2 h2 hkeys =>
      hstop w2 (h1.trans hΓ h2) hkeys).mono fun r w2 h2 ha => ?_
    obtain ⟨w3, h3, hentered⟩ := ha.entered
    exact ⟨ha.senderLock, ha.roomLock, w3, h1.trans hΓ h3, hentered⟩

/-! ## Rate limits -/

/-- How many messages of a kind were accepted in the window before `now`, or later. -/
def recentCount (q : ChatMessage → Bool) (window : Nat) (now : Time) (s : Store) : Nat :=
  (s.messages.filter fun m => q m && isRecent window now m.acceptedAt).length

/-- Any time at all is a second at least. -/
theorem ceilSeconds_ne_zero {n : Nat} (h : 0 < n) : ceilSeconds n ≠ 0 := by
  rw [ceilSeconds]
  omega

/-- A time is recent for as long as its window is open. -/
theorem isRecent_iff {window : Nat} {now t : Time} :
    isRecent window now t = true ↔ now < t + seconds window := decide_eq_true_iff

/-- The times in the window, in their order. -/
def recentTimes (q : ChatMessage → Bool) (window : Nat) (now : Time) (s : Store) : List Time :=
  (((s.messages.filter q).map (·.acceptedAt)).filter (isRecent window now)).insertionSort (· ≤ ·)

/-- Filtering the images of the rows is filtering the rows. -/
theorem length_filter_map {ρ κ : Type} (q : ρ → Bool) (f : ρ → κ) (r : κ → Bool) (l : List ρ) :
    (((l.filter q).map f).filter r).length = (l.filter fun m => q m && r (f m)).length := by
  rw [List.filter_map, List.length_map, List.filter_filter]
  refine congrArg List.length (List.filter_congr fun m _ => ?_)
  exact Bool.and_comm _ _

/-- Recent times are as many as recent messages. -/
theorem length_recentTimes (q : ChatMessage → Bool) (window : Nat) (now : Time) (s : Store) :
    (recentTimes q window now s).length = recentCount q window now s := by
  rw [recentTimes, List.length_insertionSort, length_filter_map, recentCount]

/-- Recent times are recent. -/
theorem mem_recentTimes {q : ChatMessage → Bool} {window : Nat} {now t : Time}
    (h : t ∈ recentTimes q window now s) : now < t + seconds window := by
  rw [recentTimes, List.mem_insertionSort, List.mem_filter] at h
  exact isRecent_iff.mp h.2

/-- A full window has a time to wait for. -/
theorem recentCount_lt {q : ChatMessage → Bool} {limit window : Nat} {now : Time}
    (hpos : 0 < limit)
    (h : windowRetryAfter limit window now (windowTimestamps q limit window now s) = 0) :
    recentCount q window now s < limit := by
  refine Nat.lt_of_not_le fun hfull => ?_
  have htake : windowTimestamps q limit window now s =
      (recentTimes q window now s).take limit := rfl
  have hlen : (windowTimestamps q limit window now s).length = limit := by
    rw [htake, List.length_take, length_recentTimes]
    exact Nat.min_eq_left hfull
  cases hts : windowTimestamps q limit window now s with
  | nil =>
      rw [hts] at hlen
      exact absurd hlen.symm (Nat.ne_of_gt hpos)
  | cons first rest =>
      rw [hts] at h hlen
      rw [windowRetryAfter, if_pos (Nat.le_of_eq hlen.symm)] at h
      have hfirst : first ∈ recentTimes q window now s := by
        refine List.mem_of_mem_take (i := limit) ?_
        rw [← htake, hts]
        exact List.mem_cons_self
      exact ceilSeconds_ne_zero (Nat.sub_pos_of_lt (mem_recentTimes hfirst)) h

/-- The delivery is not asked for. -/
theorem recent_accepted {q : ChatMessage → Bool} (hq : ∀ m, q m.accepted = q m)
    (window : Nat) (now : Time) (m : ChatMessage) :
    (q m.accepted && isRecent window now m.accepted.acceptedAt) =
      (q m && isRecent window now m.acceptedAt) := by
  rw [hq m]
  exact congrArg _ rfl

/-- A count of messages of one sender, by what was accepted of them. -/
theorem recentCount_of_sender {q : ChatMessage → Bool} {n window : Nat} {now : Time}
    (hq : ∀ m, q m.accepted = q m) (hsender : ∀ m, q m = true → m.sender = n)
    (hsame : (s'.messages.filter (·.sender == n)).map ChatMessage.accepted =
      (s.messages.filter (·.sender == n)).map ChatMessage.accepted) :
    recentCount q window now s' = recentCount q window now s := by
  have count : ∀ s : Store, recentCount q window now s =
      (((s.messages.filter (·.sender == n)).map ChatMessage.accepted).filter fun m =>
        q m && isRecent window now m.acceptedAt).length := by
    intro s
    rw [← filter_accepted (recent_accepted hq window now), List.length_map, List.filter_filter,
      recentCount]
    congr 1
    refine List.filter_congr fun m _ => ?_
    cases hm : q m with
    | false => rw [Bool.false_and, Bool.false_and]
    | true => rw [beq_iff_eq.mpr (hsender m hm), Bool.and_true]
  rw [count, count, hsame]

/-- The messages of a user that the lock of the user keeps. -/
theorem recentCount_same {q : ChatMessage → Bool} {n window : Nat} {now : Time}
    (hq : ∀ m, q m.accepted = q m) (hsender : ∀ m, q m = true → m.sender = n)
    (h : OwnedSame n s s') : recentCount q window now s' = recentCount q window now s :=
  recentCount_of_sender hq hsender h.messages

/-- What the loop over the checks leaves: the longest time to wait. -/
theorem look_retryAfter (hΓ : Lawful Γ) (hF : Faults Γ F) (now : Time)
    (checks : List ((ChatMessage → Bool) × Nat × Nat)) (longest : Nat) :
    Look Γ (retryAfter now checks longest) w (fun r w' => longest ≤ r ∧
      ∀ check ∈ checks, ∃ w1, Still Γ w w1 ∧ Still Γ w1 w' ∧
        windowRetryAfter check.2.1 check.2.2 now
          (windowTimestamps check.1 check.2.1 check.2.2 now w1.view) ≤ r) F := by
  induction checks generalizing w longest with
  | nil => exact Look.ret hΓ ⟨Nat.le_refl _, fun _ h => nomatch h⟩
  | cons check rest ih =>
      obtain ⟨q, limit, window⟩ := check
      refine Look.bind hΓ (look_fetch hF _) fun ts w1 h1 hts => ?_
      refine (ih _).mono fun r w2 h2 ⟨hle, hrest⟩ => ⟨?_, fun check hcheck => ?_⟩
      · exact Nat.le_trans (Nat.le_max_left _ _) hle
      · rcases List.mem_cons.mp hcheck with rfl | hcheck
        · refine ⟨w1, h1, h2, ?_⟩
          rw [← hts]
          exact Nat.le_trans (Nat.le_max_right _ _) hle
        · obtain ⟨w3, h3, h32, hr⟩ := hrest check hcheck
          exact ⟨w3, h1.trans hΓ h3, h32, hr⟩

/-- The limits that `_enforce_rate_limits` checks are kept. -/
def WithinLimits (sender : Nat) (connectionId : Uuid) (now : Time) (s : Store) : Prop :=
  ∀ check ∈ rateChecks sender connectionId,
    recentCount check.1 check.2.2 now s < check.2.1

/-- Every check counts messages of the sender, and has a limit above zero. -/
theorem rateChecks_sender {sender : Nat} {connectionId : Uuid}
    {check : (ChatMessage → Bool) × Nat × Nat} (h : check ∈ rateChecks sender connectionId) :
    0 < check.2.1 ∧ (∀ m, check.1 m.accepted = check.1 m) ∧
      ∀ m, check.1 m = true → m.sender = sender := by
  simp only [rateChecks, List.mem_cons, List.not_mem_nil, or_false] at h
  rcases h with rfl | rfl | rfl
  · exact ⟨Nat.succ_pos _, fun _ => rfl, fun m hm => beq_iff_eq.mp hm⟩
  · exact ⟨Nat.succ_pos _, fun _ => rfl, fun m hm => beq_iff_eq.mp hm⟩
  · exact ⟨Nat.succ_pos _, fun _ => rfl, fun m hm => beq_iff_eq.mp (Bool.and_eq_true_iff.mp hm).1⟩

/-- The limits are a matter of the sender's own messages. -/
theorem WithinLimits.same {sender : Nat} {connectionId : Uuid} {now : Time}
    (h : WithinLimits sender connectionId now s) (hsame : OwnedSame sender s s') :
    WithinLimits sender connectionId now s' := by
  intro check hcheck
  obtain ⟨-, hq, hsender⟩ := rateChecks_sender hcheck
  rw [recentCount_same hq hsender hsame]
  exact h check hcheck

/-- **SPECIFICATION** of the rate limits, with the sender locked. -/
theorem look_enforceRateLimits (hA : Abides p Γ) (hF : Faults Γ F)
    (hlimit : ∀ n, F (.chatRateLimited n)) (sender : Nat) (connectionId : Uuid) (now : Time)
    (hlock : .row .user sender ∈ w.sess.held) (hpend : w.sess.pend = id) :
    Look Γ (enforceRateLimits sender connectionId now) w
      (fun _ w' => WithinLimits sender connectionId now w'.db) F := by
  have hΓ := hA.lawful
  refine Look.bind hΓ (look_retryAfter hΓ hF now _ 0) fun longest w1 h1 ⟨_, hchecks⟩ => ?_
  refine (look_raiseIf hΓ fun _ => hlimit _).mono fun _ w2 h2 hzero => ?_
  intro check hcheck
  obtain ⟨hpos, hq, hsender⟩ := rateChecks_sender hcheck
  obtain ⟨w3, h3, h31, hr⟩ := hchecks check hcheck
  have hzero : longest = 0 := by simpa using hzero
  have h32 : Still Γ w3 w2 := h31.trans hΓ h2
  rw [recentCount_same hq hsender (hA.owned h32.toNear (h3.held hlock))]
  rw [view_of_id (h3.pend.trans hpend)] at hr
  exact recentCount_lt hpos (Nat.le_zero.mp (by rw [← hzero]; exact hr))

/-! ## The transaction -/

/-- The first row by key is a row. -/
theorem mem_of_firstByPk {ρ : Type} {pk : ρ → Nat} {rows : List ρ} {r : ρ}
    (h : firstByPk pk rows = some r) : r ∈ rows :=
  (List.mem_insertionSort _).mp (List.mem_of_mem_head? h)

/-- A message that is about to be committed. -/
structure Stored (Γ : Ctx Store Lock Exn Obs) (x : ChatSubmission) (m : ChatMessage)
    (w : World Store Lock Obs) : Prop where
  row : ∃ n acceptedAt, m = x.message n acceptedAt
  senderLock : .row .user x.sender ∈ w.sess.held
  roomLock : .row .room x.room ∈ w.sess.held
  started : w.sess.start ≤ m.acceptedAt
  limits : WithinLimits x.sender x.connectionId w.sess.start w.db
  pkFree : Free w.sess.held w.db (.pk .message m.pk)
  keyFree : Free w.sess.held w.db (.clientMessage x.room x.sender x.clientMessageId)
  allocated : ∃ now s, Γ.given (.allocating m.pk) now s ∧ Γ.rely [.row .room x.room] s w.db

/-- A message that is pending stays so. -/
theorem Stored.near {x : ChatSubmission} {m : ChatMessage} (hA : Abides p Γ)
    (h : Stored Γ x m w) (hn : Near Γ w w') : Stored Γ x m w' where
  row := h.row
  senderLock := hn.held h.senderLock
  roomLock := hn.held h.roomLock
  started := by
    rw [hn.start]
    exact h.started
  limits := by
    rw [hn.start]
    exact h.limits.same (hA.owned hn h.senderLock)
  pkFree := h.pkFree.near hA hn
  keyFree := h.keyFree.near hA hn
  allocated := by
    obtain ⟨now, s, hgiven, hs⟩ := h.allocated
    refine ⟨now, s, hgiven, hA.lawful.trans _ _ _ _ hs (hA.lawful.anti _ _ _ _ ?_ hn.db)⟩
    intro l hl
    rw [List.mem_singleton.mp hl]
    exact h.roomLock

/-- The primary keys of messages may be shown as they are given. -/
def ShowsAllocated (Γ : Ctx Store Lock Exn Obs) : Prop :=
  ∀ n now s, Γ.given (.allocating n) now s → Γ.shown (.allocating n) now s

/-- The message is inserted at the time of the transaction. -/
theorem body_createMessage (hA : Abides p Γ) (hshow : ShowsAllocated Γ) (x : ChatSubmission)
    (hsender : .row .user x.sender ∈ w.sess.held) (hroom : .row .room x.room ∈ w.sess.held)
    (hstart : w.sess.start ≤ w.now)
    (hlimits : WithinLimits x.sender x.connectionId w.sess.start w.db)
    (hpend : w.sess.pend = id) :
    Body Γ (createMessage x) w (fun m w' => Stored Γ x m w' ∧
      w'.sess.pend = addMessage m) anyError := by
  have hΓ := hA.lawful
  refine Body.look hΓ (look_clockTimestamp anyError_faults) fun acceptedAt w1 h1 hnow => ?_
  refine Body.look hΓ Look.fresh fun n w2 h2 _ => ?_
  refine Body.look hΓ (Look.observe fun w' _ hg => hshow _ _ _ hg)
    fun _ w3 h3 ⟨w0, h20, hgiven, hw3⟩ => ?_
  have hdb3 : w3.db = w0.db := by rw [hw3, World.note_db]
  have h02 : Still Γ w w2 := h1.trans hΓ h2
  have h03 : Still Γ w w3 := h02.trans hΓ h3
  refine Body.bind hΓ (body_insertRow hΓ anyError_faults trivial
    fun held hsub hkeys s => hA.leave _ _ _ (respects_addMessage (hkeys _ List.mem_cons_self)
      (hkeys _ (List.mem_cons_of_mem _ List.mem_cons_self)) (hsub (h03.held hsender))))
    fun _ w4 h4 hi => Body.ret hΓ ⟨?_, ?_⟩
  · have hpend3 : w3.sess.pend = id := h03.pend.trans hpend
    have hview : ∀ (i : Index) s, i.present (w3.sess.pend s) = false → i.present s = false := by
      intro i s hs
      rw [hpend3] at hs
      exact hs
    have h04 : Near Γ w w4 := h03.toNear.trans hΓ h4.toNear
    refine ⟨⟨n, acceptedAt, rfl⟩, h04.held hsender, h04.held hroom, ?_, ?_,
      (hi.settled hA List.mem_cons_self (hview _)).toFree,
      (hi.settled hA (List.mem_cons_of_mem _ List.mem_cons_self) (hview _)).toFree,
      w0.now, w0.db, hgiven, ?_⟩
    · rw [h04.start]
      show w.sess.start ≤ acceptedAt
      rw [hnow]
      exact Nat.le_trans hstart h1.now
    · rw [h04.start]
      exact hlimits.same (hA.owned h04 hsender)
    · rw [← hdb3]
      refine hΓ.anti _ _ _ _ (fun l hl => ?_) h4.db
      rw [List.mem_singleton.mp hl]
      exact h03.held hroom
  · rw [hi.pend, h03.pend, hpend]
    rfl

/-- The payload of the notification of a message. -/
def messagePayload (m : ChatMessage) (c : ProductConversation) : JsonObject :=
  [("message", .str "상품 대화에 새 메시지가 있습니다."), ("room_id", .num m.room),
   ("product_id", .num c.product), ("message_id", .num m.pk)]

/-- In a product room the counterparty is told. -/
theorem body_notifyMessage (hA : Abides p Γ) (m : ChatMessage) (hopen : w.sess.frames ≠ []) :
    Body Γ (notifyMessage m) w (fun _ w' => ∃ c w1, Still Γ w w1 ∧ Within Γ w1 w' ∧
      w1.view.conversations.find? (·.room == m.room) = some c ∧
      Noticed Γ (c.recipient m.sender) (messageEventKey m.pk) "PRODUCT_MESSAGE"
        (messagePayload m c) w1 w') anyError := by
  have hΓ := hA.lawful
  refine Body.look hΓ (look_getRow hΓ anyError_faults _ _ trivial) fun c w1 h1 hc => ?_
  refine Body.bind hΓ (body_createNotification hA _ _ _ _ ?_) fun _ w2 h2 hn =>
    Body.ret hΓ ⟨c, w1, h1, h2, hc, hn⟩
  rw [h1.frames]
  exact hopen

/-- What the message of a room tells the counterparty: nothing, or one notification. -/
inductive Announced (Γ : Ctx Store Lock Exn Obs) (m : ChatMessage) :
    Room → World Store Lock Obs → (Store → Store) → Prop
  | silent {room : Room} {w : World Store Lock Obs} : room.kind ≠ .product →
      Announced Γ m room w (addMessage m)
  | told {room : Room} {w : World Store Lock Obs} {f : Store → Store} (c : ProductConversation)
      (w1 w2 : World Store Lock Obs) : room.kind = .product → w1.sess.pend = addMessage m →
      w1.db.conversations.find? (·.room == m.room) = some c → Near Γ w1 w2 → Near Γ w2 w →
      Noticed Γ (c.recipient m.sender) (messageEventKey m.pk) "PRODUCT_MESSAGE"
        (messagePayload m c) w1 w2 → w2.sess.pend = f → Announced Γ m room w f

/-- Who was told stays told. -/
theorem Announced.near {m : ChatMessage} {room : Room} {f : Store → Store} (hΓ : Lawful Γ)
    (h : Announced Γ m room w f) (hn : Near Γ w w') : Announced Γ m room w' f := by
  cases h with
  | silent hkind => exact .silent hkind
  | told c w1 w2 hkind hp hc h12 h2 hnoticed hf =>
      exact .told c w1 w2 hkind hp hc h12 (h2.trans hΓ hn) hnoticed hf

/-- One message and at most one notification are added. -/
theorem Announced.writes {m : ChatMessage} {room : Room} {f : Store → Store}
    (h : Announced Γ m room w f) : ∃ notes : List Notification, notes.length ≤ 1 ∧
      ∀ s, f s = addNotifications notes (addMessage m s) := by
  cases h with
  | silent _ => exact ⟨[], Nat.zero_le _, fun s => (addNotifications_nil _).symm⟩
  | told c w1 w2 _ hp _ _ _ hnoticed hf =>
      obtain ⟨notes, hlen, hpend⟩ := hnoticed.notified
      refine ⟨notes, hlen, fun s => ?_⟩
      rw [← hf, hpend, hp]

/-- What the transaction of `accept` is about to commit. -/
inductive AcceptEnd (Γ : Ctx Store Lock Exn Obs) (x : ChatSubmission) :
    AcceptedMessage ⊕ ChatMessage → World Store Lock Obs → Prop
  | replayed {w : World Store Lock Obs} (m : ChatMessage) :
      m.accepted ∈ w.db.messages.map ChatMessage.accepted → m.room = x.room →
      m.sender = x.sender → m.clientMessageId = x.clientMessageId →
      m.payloadSha256 = x.payloadSha256 → w.sess.pend = id →
      AcceptEnd Γ x (.inl ⟨m.pk, m.clientMessageId, m.acceptedAt, m.delivery, true⟩) w
  | stored {w : World Store Lock Obs} (m : ChatMessage) (room : Room) : Stored Γ x m w →
      room.pk = x.room → room ∈ w.db.rooms → Announced Γ m room w w.sess.pend →
      AcceptEnd Γ x (.inr m) w

/-- The end of the transaction stays one. -/
theorem AcceptEnd.env {x : ChatSubmission} {r : AcceptedMessage ⊕ ChatMessage}
    (hA : Abides p Γ) (h : AcceptEnd Γ x r w) (he : Env Γ w w') : AcceptEnd Γ x r w' := by
  have hn : Near Γ w w' := he.still.toNear
  cases h with
  | replayed m hm hroom hsender hkey hhash hpend =>
      exact .replayed m ((hA.keeps hn).messages.subset hm) hroom hsender hkey hhash
        (by rw [he.sess]; exact hpend)
  | stored m room hs hpk hin ha =>
      refine .stored m room (hs.near hA hn) hpk ((hA.keeps hn).rooms.subset hin) ?_
      rw [he.sess]
      exact ha.near hA.lawful hn

/-- **SPECIFICATION** of the transaction of `accept`. -/
theorem body_acceptBody (hA : Abides p Γ) (hshow : ShowsAllocated Γ) (x : ChatSubmission)
    (hpend : w.sess.pend = id) (hopen : w.sess.frames ≠ []) (hstart : w.sess.start ≤ w.now) :
    Body Γ (acceptBody x) w (fun r w' => AcceptEnd Γ x r w') anyError := by
  have hΓ := hA.lawful
  refine Body.look hΓ (look_requireMessageAcceptAccess hΓ anyError_faults trivial _ _
    fun _ _ _ => trivial) fun r w1 h1 ha => ?_
  obtain ⟨user, room⟩ := r
  have hpend1 : w1.sess.pend = id := h1.pend.trans hpend
  have hroom : room.pk = x.room ∧ room ∈ w1.db.rooms := by
    obtain ⟨w0, h0, hentered⟩ := ha.entered
    obtain ⟨w2, h2, h21, hin⟩ := hentered.found
    rw [view_of_id (h2.pend.trans (h0.pend.trans hpend))] at hin
    exact ⟨hentered.pk, (hA.keeps h21.toNear).rooms.subset hin⟩
  refine Body.look hΓ (look_fetch anyError_faults _) fun stored w2 h2 hstored => ?_
  have h02 : Still Γ w w2 := h1.trans hΓ h2
  have hpend2 : w2.sess.pend = id := h02.pend.trans hpend
  cases stored with
  | some m =>
      have hmem : m ∈ w2.db.messages.filter fun m =>
          m.room == x.room && m.sender == x.sender && m.clientMessageId == x.clientMessageId := by
        rw [view_of_id hpend2] at hstored
        exact mem_of_firstByPk hstored.symm
      obtain ⟨hm, hq⟩ := List.mem_filter.mp hmem
      rw [Bool.and_eq_true, Bool.and_eq_true, beq_iff_eq, beq_iff_eq, beq_iff_eq] at hq
      -- the key has a message: the same payload is a replay
      show Body Γ (replayMessage m x.payloadSha256 >>= _) w2 _ _
      rw [replayMessage]
      split
      · exact Body.bind (P := fun _ _ => False) hΓ (Body.raise hΓ trivial)
          fun _ _ _ h => False.elim h
      · next hhash =>
          refine Body.ret hΓ (.replayed m (List.mem_map_of_mem hm) hq.1.1 hq.1.2 hq.2 ?_ hpend2)
          simpa using hhash
  | none =>
      -- the key is free, and stays so under the lock of the sender
      refine Body.look hΓ (look_currentTimestamp anyError_faults) fun now w3 h3 hnow => ?_
      have h13 : Still Γ w1 w3 := h2.trans hΓ h3
      refine Body.look hΓ (look_enforceRateLimits hA anyError_faults (fun _ => trivial) x.sender
        x.connectionId now (h13.held ha.senderLock) (h13.pend.trans hpend1))
        fun _ w4 h4 hlimits => ?_
      have h14 : Still Γ w1 w4 := h13.trans hΓ h4
      have h04 : Still Γ w w4 := h1.trans hΓ h14
      rw [hnow, ← h4.start] at hlimits
      refine Body.bind hΓ (body_createMessage hA hshow x (h14.held ha.senderLock)
        (h14.held ha.roomLock) ?_ hlimits (h14.pend.trans hpend1))
        fun m w5 h5 ⟨hs, hp⟩ => ?_
      · rw [h04.start]
        exact Nat.le_trans hstart h04.now
      -- only a product room has a counterparty to notify
      show Body Γ (if room.kind == .product then _ else _) w5 _ _
      split
      · next hkind =>
          refine Body.bind hΓ (body_notifyMessage hA m ?_)
            fun _ w6 h6 ⟨c, w7, h57, h76, hc, hnoticed⟩ => Body.ret hΓ ?_
          · rw [h5.frames, h04.frames]
            exact hopen
          · have hp7 : w7.sess.pend = addMessage m := h57.pend.trans hp
            have h16 : Near Γ w1 w6 := (h14.toNear.trans hΓ h5.toNear).trans hΓ h6.toNear
            refine .stored m room (hs.near hA h6.toNear) hroom.1
              ((hA.keeps h16).rooms.subset hroom.2) (.told c w7 w6 (beq_iff_eq.mp hkind)
                hp7 ?_ h76.toNear (Near.refl hΓ w6) hnoticed rfl)
            rw [World.view, hp7] at hc
            exact hc
      · next hkind =>
          refine Body.ret hΓ (.stored m room hs hroom.1
            ((hA.keeps (h14.toNear.trans hΓ h5.toNear)).rooms.subset hroom.2) ?_)
          rw [hp]
          exact .silent fun hc => hkind (by rw [hc]; rfl)

end Market
