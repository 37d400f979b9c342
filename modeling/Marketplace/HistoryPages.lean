import Mathlib.Data.List.Sort
import Marketplace.ChatRuns

/-! # Paging through the history of a room

    The row of the room is locked before a message gets its primary key and until the
    message is committed.  The messages of one room therefore appear in the order of their
    keys, although the sequence is shared by all rooms, and a page that starts after the
    last key of the one before it neither skips nor repeats a message. -/

namespace Market

open TxnProgram TxnInterleaving TxnLogic TxnProtection TxnSoundness TxnBody TxnFrames
  TxnInvariants TxnSchedule

variable {p : Platform} {Γ : Ctx Store Lock Exn Obs} {w w' : World Store Lock Obs}
  {s s' : Store} {room start : Nat} {ids : List Nat}

/-! ## Pages of an increasing list -/

/-- The last key of the pages so far, or the cursor they started from. -/
def lastId (start : Nat) (ids : List Nat) : Nat := ids.getLast?.getD start

/-- The last id of a page is the greatest. -/
theorem le_lastId (h : ids.Pairwise (· < ·)) {n : Nat} (hn : n ∈ ids) : n ≤ lastId start ids := by
  induction ids using List.reverseRecOn with
  | nil => exact nomatch hn
  | append_singleton l a _ =>
      rw [lastId, List.getLast?_append, List.getLast?_singleton, Option.some_or, Option.getD_some]
      rcases List.mem_append.mp hn with hn | hn
      · exact Nat.le_of_lt ((List.pairwise_append.mp h).2.2 n hn a List.mem_cons_self)
      · rw [List.mem_singleton.mp hn]

/-- What a page takes is a part of the list that ends somewhere. -/
theorem mem_take_iff {l : List Nat} (h : l.Pairwise (· < ·)) (k n : Nat) :
    n ∈ l.take k ↔ n ∈ l ∧ ∃ last ∈ (l.take k).getLast?, n ≤ last := by
  have hsplit : l.take k ++ l.drop k = l := List.take_append_drop k l
  have htake : (l.take k).Pairwise (· < ·) := h.sublist (List.take_sublist k l)
  constructor
  · intro hn
    obtain ⟨last, hlast⟩ : ∃ last, (l.take k).getLast? = some last :=
      Option.isSome_iff_exists.mp (List.getLast?_isSome.mpr (List.ne_nil_of_mem hn))
    refine ⟨List.mem_of_mem_take hn, last, hlast, ?_⟩
    have hle : n ≤ lastId 0 (l.take k) := le_lastId htake hn
    rw [lastId, hlast] at hle
    exact hle
  · rintro ⟨hn, last, hlast, hle⟩
    rw [← hsplit] at hn h
    rcases List.mem_append.mp hn with hn | hn
    · exact hn
    · -- what is left over comes after the last one taken
      have hlt := (List.pairwise_append.mp h).2.2 last (List.mem_of_getLast? hlast) n hn
      omega

/-! ## The messages of a room -/

/-- The primary keys of the messages of a room. -/
def roomIds (room : Nat) (s : Store) : List Nat :=
  (s.messages.filter (·.room == room)).map (·.pk)

/-- The pages so far are the messages of the room from the cursor up to the last one. -/
structure Paged (room start : Nat) (ids : List Nat) (s : Store) : Prop where
  increasing : ids.Pairwise (· < ·)
  exact : ∀ n, n ∈ ids ↔ n ∈ roomIds room s ∧ start < n ∧ ∃ last ∈ ids.getLast?, n ≤ last

theorem Paged.nil (room start : Nat) (s : Store) : Paged room start [] s where
  increasing := List.Pairwise.nil
  exact n := by
    constructor
    · intro hn
      exact nomatch hn
    · rintro ⟨-, -, last, hlast, -⟩
      exact nomatch hlast

/-- The cursor never goes back. -/
theorem Paged.start_le (h : Paged room start ids s) : start ≤ lastId start ids := by
  cases hlast : ids.getLast? with
  | none =>
      rw [lastId, hlast]
      exact Nat.le_refl _
  | some last =>
      rw [lastId, hlast]
      exact Nat.le_of_lt ((h.exact last).mp (List.mem_of_getLast? hlast)).2.1

/-- The ids of a room are those of its messages. -/
theorem mem_roomIds {n : Nat} :
    n ∈ roomIds room s ↔ ∃ m ∈ s.messages, m.room = room ∧ m.pk = n := by
  rw [roomIds, List.mem_map]
  constructor
  · rintro ⟨m, hm, hn⟩
    obtain ⟨hm, hroom⟩ := List.mem_filter.mp hm
    exact ⟨m, hm, eq_of_beq hroom, hn⟩
  · rintro ⟨m, hm, hroom, hn⟩
    exact ⟨m, List.mem_filter.mpr ⟨hm, beq_iff_eq.mpr hroom⟩, hn⟩

/-- The keys that a page is taken from. -/
def idsAfter (room cursor : Nat) (s : Store) : List Nat :=
  (messagesAfter room cursor s).map (·.pk)

/-- The ids after a cursor are those above it. -/
theorem mem_idsAfter {cursor n : Nat} :
    n ∈ idsAfter room cursor s ↔ n ∈ roomIds room s ∧ cursor < n := by
  rw [idsAfter, List.mem_map, mem_roomIds]
  constructor
  · rintro ⟨m, hm, rfl⟩
    obtain ⟨hm, hq⟩ := List.mem_filter.mp ((List.mem_insertionSort _).mp hm)
    rw [Bool.and_eq_true, beq_iff_eq, decide_eq_true_iff] at hq
    exact ⟨⟨m, hm, hq.1, rfl⟩, hq.2⟩
  · rintro ⟨⟨m, hm, hroom, rfl⟩, hlt⟩
    refine ⟨m, (List.mem_insertionSort _).mpr (List.mem_filter.mpr ⟨hm, ?_⟩), rfl⟩
    rw [Bool.and_eq_true, beq_iff_eq, decide_eq_true_iff]
    exact ⟨hroom, hlt⟩

/-- They come in increasing order. -/
theorem idsAfter_increasing (h : (roomIds room s).Nodup) (cursor : Nat) :
    (idsAfter room cursor s).Pairwise (· < ·) := by
  have hsorted : (idsAfter room cursor s).Pairwise (· ≤ ·) :=
    List.pairwise_map.mpr (List.pairwise_insertionSort _ _)
  have hnodup : (idsAfter room cursor s).Nodup := by
    refine ((List.perm_insertionSort _ _).map _).nodup_iff.mpr (h.sublist ?_)
    refine List.Sublist.map _ (List.monotone_filter_right _ fun m hm => ?_)
    exact (Bool.and_eq_true_iff.mp hm).1
  refine (hsorted.and hnodup).imp fun ⟨hle, hne⟩ => Nat.lt_of_le_of_ne hle hne

/-- A page is the first of them. -/
theorem historyPage_ids (room cursor limit : Nat) (s : Store) :
    (historyPage room cursor limit s).map (·.serverMessageId) =
      (idsAfter room cursor s).take limit := by
  rw [historyPage, List.map_map, idsAfter, ← List.map_take]
  rfl

/-- **PAGE**: the next page goes on where the pages so far end. -/
theorem Paged.next (h : Paged room start ids s) (hnodup : (roomIds room s).Nodup) (limit : Nat) :
    Paged room start (ids ++ (idsAfter room (lastId start ids) s).take limit) s := by
  have hafter := idsAfter_increasing hnodup (lastId start ids)
  have hmem := mem_take_iff hafter limit
  generalize hpage : (idsAfter room (lastId start ids) s).take limit = page at hmem
  have hpages : page.Pairwise (· < ·) := by
    rw [← hpage]
    exact hafter.sublist (List.take_sublist _ _)
  have hlt : ∀ n ∈ page, n ∈ roomIds room s ∧ lastId start ids < n := fun n hn =>
    mem_idsAfter.mp ((hmem n).mp hn).1
  refine ⟨List.pairwise_append.mpr ⟨h.increasing, hpages, fun x hx y hy => ?_⟩, fun n => ?_⟩
  · exact Nat.lt_of_le_of_lt (le_lastId h.increasing hx) (hlt y hy).2
  · cases hlast : page.getLast? with
    | none =>
        rw [List.getLast?_eq_none_iff.mp hlast, List.append_nil]
        exact h.exact n
    | some last =>
        rw [List.getLast?_append, hlast, Option.some_or, List.mem_append]
        have hend := (hlt last (List.mem_of_getLast? hlast)).2
        constructor
        · rintro (hn | hn)
          · obtain ⟨hroom, hstart, -⟩ := (h.exact n).mp hn
            have hle : n ≤ lastId start _ := le_lastId h.increasing hn
            exact ⟨hroom, hstart, last, rfl, by omega⟩
          · obtain ⟨-, x, hx, hle⟩ := (hmem n).mp hn
            rw [hlast] at hx
            cases hx
            have hstart := h.start_le
            exact ⟨(hlt n hn).1, by have := (hlt n hn).2; omega, last, rfl, hle⟩
        · rintro ⟨hroom, hstart, x, hx, hle⟩
          cases hx
          by_cases hn : lastId start ids < n
          · refine Or.inr ((hmem n).mpr ⟨mem_idsAfter.mpr ⟨hroom, hn⟩, last, hlast, hle⟩)
          · -- the pages so far go from the cursor to their last key
            refine Or.inl ((h.exact n).mpr ⟨hroom, hstart, ?_⟩)
            rw [lastId] at hn
            cases hids : ids.getLast? with
            | none =>
                rw [hids, Option.getD_none] at hn
                exact absurd hstart hn
            | some y =>
                rw [hids, Option.getD_some] at hn
                exact ⟨y, rfl, Nat.le_of_not_lt hn⟩

/-! ## Growth -/

/-- Messages are only added to a room, after all that are there. -/
def RoomGrows (s s' : Store) : Prop :=
  ∀ room, ∃ new, roomIds room s' = roomIds room s ++ new ∧ new.Pairwise (· < ·) ∧
    ∀ y ∈ new, 0 < y ∧ ∀ x ∈ roomIds room s, x < y

/-- A room without a new message has not changed. -/
theorem roomGrows_of_same (h : ∀ room, roomIds room s' = roomIds room s) : RoomGrows s s' := by
  intro room
  refine ⟨[], ?_, List.Pairwise.nil, fun y hy => nomatch hy⟩
  rw [h, List.append_nil]

/-- To grow is a relation of steps. -/
theorem roomGrows_composes : Composes RoomGrows where
  refl _ := roomGrows_of_same fun _ => rfl
  trans s s' s'' h h' := by
    intro room
    obtain ⟨new, heq, hnew, hlt⟩ := h room
    obtain ⟨new', heq', hnew', hlt'⟩ := h' room
    refine ⟨new ++ new', ?_, List.pairwise_append.mpr ⟨hnew, hnew', fun x hx y hy => ?_⟩, ?_⟩
    · rw [heq', heq, List.append_assoc]
    · refine (hlt' y hy).2 x ?_
      rw [heq]
      exact List.mem_append_right _ hx
    · intro y hy
      rcases List.mem_append.mp hy with hy | hy
      · exact hlt y hy
      · refine ⟨(hlt' y hy).1, fun x hx => (hlt' y hy).2 x ?_⟩
        rw [heq]
        exact List.mem_append_left _ hx

/-- The ids of a room stay distinct, -/
theorem RoomGrows.nodup (h : RoomGrows s s') (hs : (roomIds room s).Nodup) :
    (roomIds room s').Nodup := by
  obtain ⟨new, heq, hnew, hlt⟩ := h room
  rw [heq]
  refine List.nodup_append'.mpr ⟨hs, hnew.imp Nat.ne_of_lt, fun x hx hx' => ?_⟩
  exact Nat.lt_irrefl x ((hlt x hx').2 x hx)

/-- A message that was not there comes after every one that was. -/
theorem RoomGrows.later (h : RoomGrows s s') {n : Nat} (hn : n ∈ roomIds room s')
    (hnot : n ∉ roomIds room s) : 0 < n ∧ ∀ x ∈ roomIds room s, x < n := by
  obtain ⟨new, heq, -, hlt⟩ := h room
  rw [heq] at hn
  rcases List.mem_append.mp hn with hn | hn
  · exact absurd hn hnot
  · exact hlt n hn

/-- and stay there. -/
theorem RoomGrows.subset (h : RoomGrows s s') {n : Nat} (hn : n ∈ roomIds room s) :
    n ∈ roomIds room s' := by
  obtain ⟨new, heq, -, -⟩ := h room
  rw [heq]
  exact List.mem_append_left _ hn

/-- **STABILITY**: what is committed later does not change what the pages so far are. -/
theorem Paged.grows (h : Paged room start ids s) (hgrows : RoomGrows s s') :
    Paged room start ids s' := by
  refine ⟨h.increasing, fun n => ?_⟩
  rw [h.exact n]
  constructor
  · rintro ⟨hn, hrest⟩
    exact ⟨hgrows.subset hn, hrest⟩
  · rintro ⟨hn, hstart, last, hlast, hle⟩
    refine ⟨?_, hstart, last, hlast, hle⟩
    by_contra hnot
    have hroom := ((h.exact last).mp (List.mem_of_getLast? hlast)).1
    have hlt := (hgrows.later hn hnot).2 last hroom
    omega

/-! ## The lock of the room -/

/-- The row lock of a room keeps messages out of it, and rooms only grow. -/
def pageDiscipline : Discipline Store Lock where
  same l s s' := match l with
    | .row .room n => roomIds n s' = roomIds n s
    | _ => True
  keep := RoomGrows

theorem pageDiscipline_refl (l : Lock) (s : Store) : pageDiscipline.same l s s := by
  cases l with
  | row t n => cases t <;> trivial
  | _ => trivial

/-- The rules compose. -/
theorem pageDiscipline_lawful : pageDiscipline.Lawful where
  same_refl := pageDiscipline_refl
  same_trans l s s' s'' h h' := by
    cases l with
    | row t n =>
        cases t with
        | room => exact Eq.trans h' h
        | _ => trivial
    | _ => trivial
  keep_refl := roomGrows_composes.refl
  keep_trans := roomGrows_composes.trans

/-- A commit that respects the locked rooms of others. -/
def KeepsRooms (held : List Lock) (s s' : Store) : Prop :=
  pageDiscipline.guar (postgres fun _ _ => False) held s s'

/-- Who adds no message keeps the rooms. -/
theorem keepsRooms_of_same {held : List Lock} (h : ∀ room, roomIds room s' = roomIds room s) :
    KeepsRooms held s s' := by
  refine ⟨roomGrows_of_same h, fun l _ => ?_⟩
  cases l with
  | row t n =>
      cases t with
      | room => exact h n
      | _ => trivial
  | _ => trivial

/-- What a sequence gives: a key above those of the messages that are there.  The room is
    locked, so that they got theirs before. -/
def SequenceAhead (room : Nat) (v : Obs) (_ : Time) (s : Store) : Prop :=
  match v with
  | .allocating n => 0 < n ∧ ∀ x ∈ roomIds room s, x < n
  | _ => True

instance (room : Nat) (v : Obs) (now : Time) (s : Store) :
    Decidable (SequenceAhead room v now s) :=
  match v with
  | .allocating n => inferInstanceAs (Decidable (0 < n ∧ ∀ x ∈ roomIds room s, x < n))
  | .sanctioning _ _ _ _ => isTrue trivial
  | .savingUser _ => isTrue trivial
  | .reserving _ _ _ _ => isTrue trivial
  | .listing _ => isTrue trivial
  | .bumping _ => isTrue trivial
  | .ending _ _ => isTrue trivial
  | .deciding _ => isTrue trivial
  | .paged _ _ _ => isTrue trivial
  | .editing _ => isTrue trivial
  | .savingFile _ => isTrue trivial
  | .deletingFile _ => isTrue trivial

/-- What a client that pages has got is what it should have. -/
def PagesExact (v : Obs) (_ : Time) (s : Store) : Prop :=
  match v with
  | .paged room start ids => Paged room start ids s
  | _ => True

/-- A commit keeps the locked rooms as they are; the session is about one room. -/
def pageCtx (p : Platform) (room : Nat) : Ctx Store Lock Exn Obs :=
  also (market p ⟨fun _ _ => True, fun _ _ _ => True⟩ (SequenceAhead room) PagesExact)
    (postgres fun _ _ => False) pageDiscipline

theorem pageCtx_abides (p : Platform) (room : Nat) : Abides p (pageCtx p room) where
  lawful := also_lawful (market_lawful p ⟨fun _ => trivial, fun _ _ _ _ _ => trivial⟩ _ _) _
    pageDiscipline_lawful
  rely _ _ _ h := h.1
  leave _ _ _ h := ⟨h, trivial⟩
  deferred := rfl

theorem pageCtx_fits {ι : Type} (p : Platform) (room : ι → Nat) :
    Fits (postgres fun _ _ => False) (fun i => pageCtx p (room i)) := by
  have h := market_fits (ι := ι) p (fun _ => ⟨fun _ _ => True, fun _ _ _ => True⟩)
    (fun _ => ⟨fun _ => trivial, fun _ _ _ _ _ => trivial⟩) (fun _ _ _ => True) PagesExact
  have hmarket : Fits (postgres fun _ _ => False) (fun i : ι =>
      market p ⟨fun _ _ => True, fun _ _ _ => True⟩ (SequenceAhead (room i)) PagesExact) :=
    ⟨fun i => market_lawful p ⟨fun _ => trivial, fun _ _ _ _ _ => trivial⟩ _ _, h.symm,
      h.deferred, h.fault, h.env, h.guar⟩
  exact fits_also hmarket pageDiscipline_lawful fun _ _ h => False.elim h

/-! ## Senders -/

/-- A message is added to its own room. -/
theorem roomIds_addMessage (m : ChatMessage) (s : Store) (n : Nat) :
    roomIds n (addMessage m s) = roomIds n s ++ if m.room = n then [m.pk] else [] := by
  rw [roomIds, addMessage, List.filter_append, List.map_append, List.filter_cons, List.filter_nil]
  simp only [beq_iff_eq]
  split <;> rfl

/-- A delivery adds no message. -/
theorem roomIds_setDelivery (n room : Nat) (d : DeliveryState) (s : Store) :
    roomIds room (setDelivery n d s) = roomIds room s := by
  have haccepted : ∀ s : Store, roomIds room s =
      ((s.messages.map ChatMessage.accepted).filter (·.room == room)).map (·.pk) := by
    intro s
    rw [← filter_accepted fun _ => rfl, List.map_map]
    rfl
  rw [haccepted, setDelivery_accepted, ← haccepted]

/-- **COMMIT**: the key of the new message is above those of its room, at the commit too,
    because the lock of the room has been held since. -/
theorem AcceptEnd.keepsRooms {x : ChatSubmission} {r : AcceptedMessage ⊕ ChatMessage}
    (h : AcceptEnd (pageCtx p x.room) x r w) : KeepsRooms w.sess.held w.db w.view := by
  cases h with
  | replayed m _ _ _ _ _ hpend =>
      rw [view_of_id hpend]
      exact keepsRooms_of_same fun _ => rfl
  | stored m room hs _ _ ha =>
      obtain ⟨notes, -, hwrites⟩ := ha.writes
      obtain ⟨n, acceptedAt, hrow⟩ := hs.row
      have hroom : m.room = x.room := by rw [hrow]; rfl
      have hids : ∀ n, roomIds n w.view =
          roomIds n w.db ++ if x.room = n then [m.pk] else [] := by
        intro n
        rw [World.view, hwrites, ← hroom]
        exact roomIds_addMessage m w.db n
      obtain ⟨now, s, ⟨hpos, hahead⟩, hrely⟩ := hs.allocated
      have hsame : roomIds x.room w.db = roomIds x.room s :=
        hrely.2.2 (.row .room x.room) List.mem_cons_self
      refine ⟨fun n => ?_, fun l hl => ?_⟩
      · by_cases hn : x.room = n
        · subst hn
          refine ⟨[m.pk], by rw [hids, if_pos rfl], List.pairwise_singleton _ _, ?_⟩
          intro y hy
          rw [List.mem_singleton.mp hy, hsame]
          exact ⟨hpos, hahead⟩
        · refine ⟨[], by rw [hids, if_neg hn], List.Pairwise.nil, fun y hy => ?_⟩
          exact absurd hy List.not_mem_nil
      · cases l with
        | row t n =>
            cases t with
            | room =>
                have hn : x.room ≠ n := by
                  rintro rfl
                  exact not_open_row hs.roomLock hl
                show roomIds n w.view = roomIds n w.db
                rw [hids, if_neg hn, List.append_nil]
            | _ => trivial
        | _ => trivial

/-- A call of `accept` adds messages to its room only. -/
theorem top_acceptPages (sha256 : String → String) (c : AcceptCall) :
    Top (pageCtx p c.room) (c.run sha256) := by
  refine top_accept (pageCtx_abides p c.room) (fun _ _ _ _ => trivial) c
    (fun body hash r w hleave hend => ⟨⟨hleave.1, hleave.2, trivial⟩,
      AcceptEnd.keepsRooms (x := c.submission body hash) hend⟩)
    (fun n held s hleave => ⟨⟨hleave.1, hleave.2, trivial⟩, keepsRooms_of_same fun _ => rfl⟩)
    (fun n held s hleave => ⟨⟨hleave.1, hleave.2, trivial⟩, keepsRooms_of_same fun room => ?_⟩)
    sha256
  exact roomIds_setDelivery n room .live s

/-! ## Readers -/

/-- A client that asks for one page after the other, with these limits; a request that
    fails returns nothing. -/
def readPages (room user start : Nat) : List Int → List Nat → M Unit
  | [], ids => Prog.observe (.paged room start ids)
  | limit :: limits, ids => do
      Prog.observe (.paged room start ids)
      let page ← Prog.tryCatch (historyAfter room user (lastId start ids) limit) fun _ =>
        return []
      readPages room user start limits (ids ++ page.map (·.serverMessageId))

/-- A page shows the messages after the cursor at one moment. -/
theorem look_historyAfter (hΓ : Lawful Γ) (room user : Nat) (cursor limit : Int) :
    Look Γ (historyAfter room user cursor limit) w
      (fun page w' => page = historyPage room cursor.toNat limit.toNat w'.view) anyError := by
  refine Look.bind hΓ (look_raiseIf hΓ fun _ => trivial) fun _ w1 _ _ => ?_
  refine Look.bind hΓ (look_raiseIf hΓ fun _ => trivial) fun _ w2 _ _ => ?_
  refine Look.bind hΓ (look_requireActiveUser hΓ anyError_faults trivial user false)
    fun _ w3 _ _ => ?_
  refine Look.bind hΓ (look_requireRoomAccess hΓ anyError_faults trivial room user false true)
    fun row w4 _ hentered => ?_
  rw [hentered.pk]
  exact look_fetch anyError_faults _

/-- **READER**: page after page. -/
theorem wp_readPages (user : Nat) (limits : List Int) (hpend : w.sess.pend = id)
    (hnodup : (roomIds room w.db).Nodup) (h : Paged room start ids w.db) {n : Nat} :
    wp (pageCtx p n) (readPages room user start limits ids) (fun _ _ => True) w := by
  have hΓ := (pageCtx_abides p n).lawful
  induction limits generalizing w ids with
  | nil => exact wp_observe fun w1 h1 _ => ⟨h.grows h1.db.2.1, trivial⟩
  | cons limit limits ih =>
      refine wp_bind (wp_observe fun w1 h1 _ => ⟨h.grows h1.db.2.1, ?_⟩)
      have hlook : Look (pageCtx p n) (Prog.tryCatch
          (historyAfter room user (lastId start ids) limit) fun _ => return [])
          (w1.note (.paged room start ids)) (fun page w' => ∃ k, page.map (·.serverMessageId) =
            (idsAfter room (lastId start ids) w'.db).take k) anyError := by
        refine Look.tryCatch hΓ ((look_historyAfter hΓ room user _ limit).mono
          fun page w2 h2 hpage => ⟨limit.toNat, ?_⟩) fun _ w2 _ _ => Look.ret hΓ ⟨0, rfl⟩
        have hpend2 : w2.sess.pend = id := h2.pend.trans (h1.pend.trans hpend)
        rw [hpage, historyPage_ids, view_of_id hpend2]
        rfl
      refine wp_bind (wp_mono ?_ hlook)
      rintro (e | page) w2 ⟨h2, hr⟩
      · trivial
      · obtain ⟨k, hk⟩ := hr
        have hgrows : RoomGrows w.db w2.db := roomGrows_composes.trans _ _ _ h1.db.2.1 h2.db.2.1
        have hnodup2 := hgrows.nodup hnodup
        have hnext := (h.grows hgrows).next hnodup2 k
        rw [← hk] at hnext
        exact ih (h2.pend.trans (h1.pend.trans hpend)) hnodup2 hnext

/-! ## Every run -/

/-- A client of the chat: it sends a message, or reads the history of a room. -/
inductive ChatClient where
  | sender (call : AcceptCall)
  | reader (room user start : Nat) (limits : List Int)

def ChatClient.inRoom : ChatClient → Nat
  | .sender call => call.room
  | .reader room _ _ _ => room

def ChatClient.run (sha256 : String → String) : ChatClient → M Unit
  | .sender call => do
      let _ ← call.run sha256
      return ()
  | .reader room user start limits => readPages room user start limits []

section Runs

variable {ι : Type} [DecidableEq ι] {sha256 : String → String} {clients : ι → ChatClient}
  {now : Time} {c c' : Config ι Store Lock Exn Obs Unit}

omit [DecidableEq ι] in
/-- Every client is correct. -/
theorem clients_supported (hkeys : (s.messages.map (·.pk)).Nodup) :
    Supported (fun i => pageCtx p (clients i).inRoom) (fun _ _ _ => True)
      (Config.start s now fun i => (clients i).run sha256) := by
  refine supported_start (fun i => (pageCtx_abides p _).lawful) fun i => ?_
  cases hi : clients i with
  | sender call =>
      refine wp_mono (fun _ _ _ => trivial) (Top.bind (top_acceptPages sha256 call)
        (fun _ => Top.ret ()) _ ⟨rfl, rfl, rfl⟩)
  | reader room user start limits =>
      refine wp_readPages user limits rfl (hkeys.sublist ?_) (Paged.nil room start s)
      exact List.filter_sublist.map _

/-- Rooms grow along every run. -/
theorem rooms_grow (hkeys : (s.messages.map (·.pk)).Nodup)
    (hr : Reached s now (fun i => (clients i).run sha256) c)
    (hr' : Reaches (postgres fun _ _ => False) c c')
    (hsequence : AllSee (fun i => SequenceAhead (clients i).inRoom) c') : RoomGrows c.db c'.db :=
  run_onward (pageCtx_fits plainPlatform fun i => (clients i).inRoom)
    (clients_supported (p := plainPlatform) hkeys) (J := RoomGrows c.db)
    (fun _ _ _ h => False.elim h)
    (fun _ _ _ _ h hg => roomGrows_composes.trans _ _ _ h hg.2.1) hr hr' hsequence
    (roomGrows_composes.refl _)

/-- **PAGES**: in every interleaving of senders and readers in any rooms, what a reader has
    got is at every moment, then and later, exactly the messages of its room from its cursor
    up to the last one it got, in the order of their keys; and a message that is committed
    later comes after the cursor, unless the reader started beyond the messages of the room. -/
theorem history_pages_exact (sha256 : String → String) (clients : ι → ChatClient)
    (hkeys : (s.messages.map (·.pk)).Nodup)
    (hr : Reached s now (fun i => (clients i).run sha256) c)
    (hr' : Reaches (postgres fun _ _ => False) c c')
    (hsequence : AllSee (fun i => SequenceAhead (clients i).inRoom) c') {i : ι} {t : Time}
    {db : Store} (hpage : Event.marked t db (.paged room start ids) ∈ (c.sess i).hist) :
    Paged room start ids c'.db ∧
      (start = 0 ∨ ids ≠ [] ∨ (∃ x ∈ roomIds room c.db, start ≤ x) →
        ∀ n ∈ roomIds room c'.db, n ∉ roomIds room c.db → lastId start ids < n) := by
  have hsequence' := allSee_of_reaches hr' hsequence
  obtain ⟨-, -, hshown⟩ := run_supported (pageCtx_fits plainPlatform fun i => (clients i).inRoom)
    (clients_supported hkeys) hr hsequence'
  obtain ⟨d, hd, hdc, hdb⟩ := mark_reached hr rfl hpage
  have hpaged : Paged room start ids c.db :=
    Paged.grows (hshown i t db _ hpage) (hdb ▸ rooms_grow hkeys hd hdc hsequence')
  have hgrows := rooms_grow hkeys hr hr' hsequence
  refine ⟨hpaged.grows hgrows, fun hcursor n hn hnot => ?_⟩
  obtain ⟨hpos, hlater⟩ := hgrows.later hn hnot
  cases hlast : ids.getLast? with
  | some last =>
      rw [lastId, hlast, Option.getD_some]
      exact hlater last ((hpaged.exact last).mp (List.mem_of_getLast? hlast)).1
  | none =>
      rw [lastId, hlast, Option.getD_none]
      rcases hcursor with rfl | hids | ⟨x, hx, hle⟩
      · exact hpos
      · exact absurd (List.getLast?_eq_none_iff.mp hlast) hids
      · exact Nat.lt_of_le_of_lt hle (hlater x hx)

end Runs

/-- The global room, with so many messages of its one member. -/
def globalMessages (keys : List Nat) : Store where
  users := [{ pk := 1, username := "buyer_one" }]
  rooms := [{ pk := 2, kind := .global }]
  messages := keys.map fun n =>
    { pk := n, room := 2, sender := 1, connectionId := someUuid 0, clientMessageId := someUuid n,
      body := "hello", payloadSha256 := "", delivery := .live, acceptedAt := 1000 + n }

/-- A reader of the global room that starts from the cursor, and a sender. -/
def readerAndSender (cursor : Nat) : Fin 2 → ChatClient
  | 0 => .reader 2 1 cursor [1, 1]
  | 1 => .sender ⟨2, 1, someUuid 100, someUuid 101, "again"⟩

/-- What the reader got on the way, and the messages of the room. -/
def pagesAndIds (c : Config (Fin 2) Store Lock Exn Obs Unit) : List Obs × List Nat :=
  ((marksOf (c.sess 0).hist).map (·.2.2), roomIds 2 c.db)

/-- Whether the keys come from a sequence, and the messages of the room. -/
def sequenceAndIds (cursor : Nat) (c : Config (Fin 2) Store Lock Exn Obs Unit) :
    Bool × List Nat :=
  (decide (∀ i, ∀ x ∈ marksOf (c.sess i).hist,
    SequenceAhead (readerAndSender cursor i).inRoom x.2.2 x.1 x.2.1), roomIds 2 c.db)

/-- A reader that was observed with these pages. -/
theorem marked_of_pages {c : Config (Fin 2) Store Lock Exn Obs Unit} {v : Obs} {vs : List Obs}
    {n : List Nat} (h : pagesAndIds c = (vs, n)) (hv : v ∈ vs) :
    ∃ t db, Event.marked t db v ∈ (c.sess 0).hist := by
  have hvs : (marksOf (c.sess 0).hist).map (·.2.2) = vs := (Prod.ext_iff.mp h).1
  rw [← hvs] at hv
  obtain ⟨⟨t, db, u⟩, hx, rfl⟩ := List.mem_map.mp hv
  exact ⟨t, db, mem_marksOf.mp hx⟩

/-- What the run of the example has kept. -/
theorem sequence_of_kept {cursor : Nat} {c : Config (Fin 2) Store Lock Exn Obs Unit}
    {n : List Nat} (h : sequenceAndIds cursor c = (true, n)) :
    AllSee (fun i => SequenceAhead (readerAndSender cursor i).inRoom) c := by
  have hall := of_decide_eq_true (Prod.ext_iff.mp h).1
  exact fun i => sees_iff.mpr (hall i)

/-- The reader gets the first message; the second one is committed after that page. -/
theorem first_page_exact :
    ∃ c c' : Config (Fin 2) Store Lock Exn Obs Unit,
      Reached (globalMessages [5]) 2000000000 (fun i => (readerAndSender 0 i).run id) c ∧
      Reaches (postgres fun _ _ => False) c c' ∧ roomIds 2 c.db = [5] ∧
      roomIds 2 c'.db = [5, 7] ∧ Paged 2 0 [5] c'.db ∧
      (0 = 0 ∨ [5] ≠ [] ∨ (∃ x ∈ roomIds 2 c.db, 0 ≤ x) →
        ∀ n ∈ roomIds 2 c'.db, n ∉ roomIds 2 c.db → lastId 0 [5] < n) := by
  have hplay : ((play validateBalancedJournal [.run 0 6 id]
      (Config.start (globalMessages [5]) 2000000000 fun i => (readerAndSender 0 i).run id)).bind
      fun d => (play validateBalancedJournal [.run 1 200 fun _ => 7, .run 0 100 id] d).map
        fun d' => (pagesAndIds d, sequenceAndIds 0 d')) =
      some (([.paged 2 0 [5], .paged 2 0 []], [5]), (true, [5, 7])) := by decide +kernel
  obtain ⟨c, c', hr, hr', hpages, hkept⟩ := reaches_of_plays
    (D := postgres fun _ _ => False) hplay
  obtain ⟨t, db, hmark⟩ := marked_of_pages hpages List.mem_cons_self
  exact ⟨c, c', hr, hr', (Prod.ext_iff.mp hpages).2, (Prod.ext_iff.mp hkept).2,
    history_pages_exact id (readerAndSender 0) (by decide) hr hr' (sequence_of_kept hkept) hmark⟩

/-- **BEYOND THE ROOM**: a reader may start from any cursor, and one that starts above every
    message of the room never gets the messages that are committed below it. -/
theorem message_below_cursor :
    ∃ c c' : Config (Fin 2) Store Lock Exn Obs Unit,
      Reached (globalMessages []) 2000000000 (fun i => (readerAndSender 10 i).run id) c ∧
      Reaches (postgres fun _ _ => False) c c' ∧
      AllSee (fun i => SequenceAhead (readerAndSender 10 i).inRoom) c' ∧
      (∃ t db, Event.marked t db (.paged 2 10 []) ∈ (c.sess 0).hist) ∧
      ∃ n ∈ roomIds 2 c'.db, n ∉ roomIds 2 c.db ∧ n ≤ lastId 10 [] := by
  have hplay : ((play validateBalancedJournal [.run 0 100 id]
      (Config.start (globalMessages []) 2000000000 fun i => (readerAndSender 10 i).run id)).bind
      fun d => (play validateBalancedJournal [.run 1 200 fun _ => 1] d).map
        fun d' => (pagesAndIds d, sequenceAndIds 10 d')) =
      some (([.paged 2 10 [], .paged 2 10 [], .paged 2 10 []], []), (true, [1])) := by
    decide +kernel
  obtain ⟨c, c', hr, hr', hpages, hkept⟩ := reaches_of_plays
    (D := postgres fun _ _ => False) hplay
  have hids : roomIds 2 c.db = [] := (Prod.ext_iff.mp hpages).2
  have hids' : roomIds 2 c'.db = [1] := (Prod.ext_iff.mp hkept).2
  refine ⟨c, c', hr, hr', sequence_of_kept hkept, marked_of_pages hpages List.mem_cons_self,
    1, ?_, ?_, by decide⟩
  · rw [hids']
    exact List.mem_cons_self
  · rw [hids]
    exact List.not_mem_nil

end Market
