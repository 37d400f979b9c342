import Marketplace.Decimals
import Marketplace.SortedSets
import Marketplace.TransferOutcomes

/-! # Presence

    `chat/presence.py`: the connections of a user in a room are the members of a sorted
    set, and a connection is live for 90 seconds after it was last touched.  What the
    database says of the caller and of the peers is a parameter of each call. -/

namespace Market

open SortedSets

/-! ## `RedisPresenceBackend` -/

def PRESENCE_TTL_SECONDS : Nat := 90

/-- The time that a connection is live for, in microseconds. -/
def presenceTtl : Time := PRESENCE_TTL_SECONDS * 1000000

abbrev Redis := Keyspace String String

def presenceTouch (db : Redis) (now : Time) (key member : String) (expiresAt : Time) : Redis :=
  expire (zadd (zremrangebyscore db now key now) now key member expiresAt) now key
    (PRESENCE_TTL_SECONDS * 2 * 1000000)

def presenceRemove (db : Redis) (now : Time) (key member : String) : Redis :=
  zrem db now key member

def presenceCountLive (db : Redis) (now : Time) (key : String) : Redis × Nat :=
  let pruned := zremrangebyscore db now key now
  (pruned, zcount pruned now key now)

/-! ## `PresenceService` -/

/-- The `connection_id` of a consumer. -/
abbrev ConnectionId := { u : Uuid // u < 2 ^ 128 }

/-- `_presence_key`. -/
def presenceKey (room user : Nat) : String :=
  "marketplace:presence:" ++ toString room ++ ":" ++ toString user

/-- The states of the peers, of whom the active ones are known. -/
def countPeers (now : Time) (room : Nat) (active : Nat → Bool) :
    List Nat → Redis → Redis × List (Nat × Bool)
  | [], db => (db, [])
  | peer :: peers, db =>
      if active peer then
        let counted := presenceCountLive db now (presenceKey room peer)
        let rest := countPeers now room active peers counted.1
        (rest.1, (peer, counted.2 != 0) :: rest.2)
      else
        let rest := countPeers now room active peers db
        (rest.1, (peer, false) :: rest.2)

/-- A call of the service.  `authorized_presence_peers` raises, or answers with the peers;
    `online` reads the clock once for the score, and `touch` once again. -/
inductive PresenceCall where
  | online (room user : Nat) (connection : ConnectionId) (authorized : Bool)
      (now touched : Time)
  | offline (room user : Nat) (connection : ConnectionId) (now : Time)
  | peerStates (room user : Nat) (peers : Option (List Nat)) (active : Nat → Bool) (now : Time)

/-- What a call answers: nothing, an exception, or the states of the peers. -/
inductive PresenceAnswer where
  | done | refused
  | states (states : List (Nat × Bool))

def PresenceCall.run (db : Redis) : PresenceCall → Redis × PresenceAnswer
  | .online room user connection authorized now touched =>
      if authorized then
        (presenceTouch db touched (presenceKey room user) (uuidStr connection)
          (now + presenceTtl), .done)
      else (db, .refused)
  | .offline room user connection now =>
      (presenceRemove db now (presenceKey room user) (uuidStr connection), .done)
  | .peerStates _ _ none _ _ => (db, .refused)
  | .peerStates room _ (some peers) active now =>
      let counted := countPeers now room active peers db
      (counted.1, .states counted.2)

/-! ## Runs -/

/-- The times at which a call reads the clock first and last. -/
def PresenceCall.begins : PresenceCall → Time
  | .online _ _ _ _ now _ => now
  | .offline _ _ _ now => now
  | .peerStates _ _ _ _ now => now

def PresenceCall.ends : PresenceCall → Time
  | .online _ _ _ _ _ touched => touched
  | .offline _ _ _ now => now
  | .peerStates _ _ _ _ now => now

/-- The last reading of the clock, by the calls so far, the latest of which comes first. -/
def lastReading : List PresenceCall → Time
  | [] => 0
  | call :: _ => call.ends

/-- The readings of the clock do not decrease. -/
def ClockOrdered : List PresenceCall → Prop
  | [] => True
  | call :: earlier =>
      lastReading earlier ≤ call.begins ∧ call.begins ≤ call.ends ∧ ClockOrdered earlier

/-- The sorted sets after the calls, the latest of which comes first. -/
def redisAfter : List PresenceCall → Redis
  | [] => fun _ => none
  | call :: earlier => (call.run (redisAfter earlier)).1

/-! ## The specification -/

/-- Since when a connection is online: its latest `online`, unless an `offline` of it came
    after that. -/
def onlineSince (room user : Nat) (connection : ConnectionId) : List PresenceCall → Option Time
  | [] => none
  | .online r u c authorized now _ :: earlier =>
      if authorized = true ∧ r = room ∧ u = user ∧ c = connection then some now
      else onlineSince room user connection earlier
  | .offline r u c _ :: earlier =>
      if r = room ∧ u = user ∧ c = connection then none
      else onlineSince room user connection earlier
  | .peerStates .. :: earlier => onlineSince room user connection earlier

/-- Some connection of the user in the room has called `online` within the last 90 seconds,
    and not `offline` since. -/
def OnlineWithin (calls : List PresenceCall) (now : Time) (room user : Nat) : Prop :=
  ∃ connection t, onlineSince room user connection calls = some t ∧ now < t + presenceTtl

/-! ## Keys -/

/-- Two numbers in a text, with something between them that is no digit. -/
theorem numbered_inj {name separator : String}
    (hseparator : ∀ r, Decimals.NoDigit (separator.toList ++ r)) {room user room' user' : Nat}
    (h : name ++ toString room ++ separator ++ toString user =
      name ++ toString room' ++ separator ++ toString user') : room = room' ∧ user = user' := by
  have hlist := congrArg String.toList h
  simp only [String.toList_append, Nat.toString_eq_repr, Nat.toList_repr,
    List.append_assoc] at hlist
  obtain ⟨hroom, huser⟩ := Decimals.split_digits (fun _ => Decimals.isDigit_of_mem)
    (fun _ => Decimals.isDigit_of_mem) (hseparator _) (hseparator _)
    (List.append_cancel_left hlist)
  exact ⟨Decimals.toDigits_injective hroom,
    Decimals.toDigits_injective (List.append_cancel_left huser)⟩

/-- Keys tell rooms and users apart. -/
theorem presenceKey_inj {room user room' user' : Nat}
    (h : presenceKey room user = presenceKey room' user') : room = room' ∧ user = user' := by
  refine numbered_inj (fun r c hc => ?_) h
  cases hc
  rfl

theorem member_inj {c c' : ConnectionId} (h : uuidStr c = uuidStr c') : c = c' :=
  Subtype.ext (uuidStr_inj c.2 c'.2 h)

/-! ## The invariant -/

variable {db : Redis} {now now' : Time} {calls : List PresenceCall} {room user room' user' : Nat}

/-- Each key tracks the connections of its user in its room. -/
structure KeyTracks (db : Redis) (now : Time) (room user : Nat)
    (online : ConnectionId → Option Time) : Prop where
  tracks : ∃ since, Tracks (db (presenceKey room user)) now presenceTtl since ∧
    (∀ c : ConnectionId, since (uuidStr c) = online c) ∧
    ∀ m t, since m = some t → ∃ c : ConnectionId, m = uuidStr c

variable {online : ConnectionId → Option Time}

theorem KeyTracks.later (h : KeyTracks db now room user online) (hle : now ≤ now') :
    KeyTracks db now' room user online := by
  obtain ⟨since, htracks, hsince, hmembers⟩ := h.tracks
  exact ⟨since, htracks.later hle, hsince, hmembers⟩

theorem KeyTracks.same {db' : Redis} (h : KeyTracks db now room user online)
    (hsame : db' (presenceKey room user) = db (presenceKey room user)) :
    KeyTracks db' now room user online := by
  obtain ⟨since, htracks, hsince, hmembers⟩ := h.tracks
  refine ⟨since, ?_, hsince, hmembers⟩
  rw [hsame]
  exact htracks

theorem presenceKey_ne (h : ¬ (room = room' ∧ user = user')) :
    presenceKey room user ≠ presenceKey room' user' :=
  fun heq => h (presenceKey_inj heq)

/-- **ONLINE**. -/
theorem KeyTracks.touch (h : KeyTracks db now room user online) (c : ConnectionId) {t : Time}
    (ht : t ≤ now) :
    KeyTracks (presenceTouch db now (presenceKey room user) (uuidStr c) (t + presenceTtl)) now
      room user (Function.update online c (some t)) := by
  obtain ⟨since, htracks, hsince, hmembers⟩ := h.tracks
  refine ⟨_, htracks.renew (uuidStr c) ht (by decide), fun c' => ?_, fun m t' hm => ?_⟩
  · by_cases hc : c' = c
    · subst hc
      rw [Function.update_self, Function.update_self]
    · rw [Function.update_of_ne hc, Function.update_of_ne fun heq => hc (member_inj heq)]
      exact hsince c'
  · by_cases hc : m = uuidStr c
    · exact ⟨c, hc⟩
    · rw [Function.update_of_ne hc] at hm
      exact hmembers m t' hm

/-- **OFFLINE**. -/
theorem KeyTracks.remove (h : KeyTracks db now room user online) (c : ConnectionId) :
    KeyTracks (presenceRemove db now (presenceKey room user) (uuidStr c)) now room user
      (Function.update online c none) := by
  obtain ⟨since, htracks, hsince, hmembers⟩ := h.tracks
  refine ⟨_, htracks.release (uuidStr c), fun c' => ?_, fun m t hm => ?_⟩
  · by_cases hc : c' = c
    · subst hc
      rw [Function.update_self, Function.update_self]
    · rw [Function.update_of_ne hc, Function.update_of_ne fun heq => hc (member_inj heq)]
      exact hsince c'
  · by_cases hc : m = uuidStr c
    · exact ⟨c, hc⟩
    · rw [Function.update_of_ne hc] at hm
      exact hmembers m t hm

theorem KeyTracks.countLive (h : KeyTracks db now room user online) (key : String) :
    KeyTracks (presenceCountLive db now key).1 now room user online := by
  by_cases hkey : presenceKey room user = key
  · subst hkey
    obtain ⟨since, htracks, hsince, hmembers⟩ := h.tracks
    exact ⟨since, htracks.prune, hsince, hmembers⟩
  · exact h.same (store_other hkey)

/-- **COUNT**: whether a connection of the user is live. -/
theorem KeyTracks.count_iff (h : KeyTracks db now room user online) :
    ((presenceCountLive db now (presenceKey room user)).2 != 0) = true ↔
      ∃ c t, online c = some t ∧ now < t + presenceTtl := by
  obtain ⟨since, htracks, hsince, hmembers⟩ := h.tracks
  have hleases := htracks.leases.prune (Nat.le_refl now)
  have hcount : (presenceCountLive db now (presenceKey room user)).2 =
      ((lookup db now (presenceKey room user)).entries.filter fun e => now < e.2).countP
        fun e => now < e.2 := by
    have hentries : (lookup (presenceCountLive db now (presenceKey room user)).1 now
        (presenceKey room user)).entries =
        (lookup db now (presenceKey room user)).entries.filter fun e => now < e.2 := by
      show (lookup (zremrangebyscore _ _ _ _) _ _).entries = _
      rw [zremrangebyscore, lookup_store]
      exact lookup_live db now (presenceKey room user)
    show (lookup (presenceCountLive db now (presenceKey room user)).1 now _).entries.countP _ = _
    rw [hentries]
    -- what was not pruned is counted on either side of the bound
    refine List.countP_congr fun e he => ?_
    have hlt : now < e.2 := of_decide_eq_true (List.mem_filter.mp he).2
    exact ⟨fun _ => decide_eq_true hlt, fun _ => decide_eq_true (Nat.le_of_lt hlt)⟩
  rw [hcount, bne_iff_ne, ← Nat.pos_iff_ne_zero,
    hleases.count_pos fun e => decide_eq_true_iff]
  constructor
  · rintro ⟨m, t, hm, hlt⟩
    obtain ⟨c, rfl⟩ := hmembers m t hm
    exact ⟨c, t, (hsince c).symm.trans hm, hlt⟩
  · rintro ⟨c, t, hc, hlt⟩
    exact ⟨uuidStr c, t, (hsince c).trans hc, hlt⟩

/-- Counting the peers changes the sets of none. -/
theorem KeyTracks.countPeers (h : KeyTracks db now room user online) (active : Nat → Bool)
    (peers : List Nat) : KeyTracks (countPeers now room' active peers db).1 now room user
      online := by
  induction peers generalizing db with
  | nil => exact h
  | cons peer peers ih =>
      rw [Market.countPeers]
      split
      · exact ih (h.countLive _)
      · exact ih h

/-- The answer for the peers. -/
theorem countPeers_states (active : Nat → Bool) {since : Nat → ConnectionId → Option Time}
    (h : ∀ user, KeyTracks db now room user (since user)) (peers : List Nat) :
    (countPeers now room active peers db).2.map Prod.fst = peers ∧
    ∀ e ∈ (countPeers now room active peers db).2, e.2 = true ↔
      active e.1 = true ∧ ∃ c t, since e.1 c = some t ∧ now < t + presenceTtl := by
  induction peers generalizing db with
  | nil => exact ⟨rfl, fun _ he => nomatch he⟩
  | cons peer peers ih =>
      rw [countPeers]
      split
      · next hactive =>
          obtain ⟨hnames, hstates⟩ := ih fun user => (h user).countLive (presenceKey room peer)
          refine ⟨congrArg (peer :: ·) hnames, fun e he => ?_⟩
          rcases List.mem_cons.mp he with rfl | he
          · rw [(h peer).count_iff]
            exact ⟨fun hlive => ⟨hactive, hlive⟩, And.right⟩
          · exact hstates e he
      · next hactive =>
          obtain ⟨hnames, hstates⟩ := ih h
          refine ⟨congrArg (peer :: ·) hnames, fun e he => ?_⟩
          rcases List.mem_cons.mp he with rfl | he
          · exact ⟨fun hfalse => (nomatch hfalse), fun hand => absurd hand.1 hactive⟩
          · exact hstates e he

/-! ## Every run -/

/-- **RUN**: after any calls each key tracks the connections of its user in its room. -/
theorem keyTracks_after (h : ClockOrdered calls) (room user : Nat) :
    KeyTracks (redisAfter calls) (lastReading calls) room user fun c =>
      onlineSince room user c calls := by
  induction calls with
  | nil =>
      exact ⟨fun _ => none, tracks_none _ _, fun _ => rfl, fun _ _ hm => nomatch hm⟩
  | cons call earlier ih =>
      obtain ⟨hstart, hreads, hearlier⟩ := h
      have hnow := (ih hearlier).later (Nat.le_trans hstart hreads)
      cases call with
      | online r u c authorized t touched =>
          cases authorized with
          | false => exact hnow
          | true =>
              -- the call is about this key, or about another set
              by_cases hkey : r = room ∧ u = user
              · obtain ⟨rfl, rfl⟩ := hkey
                have hsince : (fun c' => onlineSince r u c'
                    (.online r u c true t touched :: earlier)) =
                    Function.update (fun c' => onlineSince r u c' earlier) c (some t) := by
                  funext c'
                  rw [onlineSince]
                  by_cases hc : c = c'
                  · subst hc
                    rw [Function.update_self, if_pos ⟨rfl, rfl, rfl, rfl⟩]
                  · rw [Function.update_of_ne (Ne.symm hc), if_neg fun hall => hc hall.2.2.2]
                rw [hsince]
                exact hnow.touch c hreads
              · have hsince : (fun c' => onlineSince room user c'
                    (.online r u c true t touched :: earlier)) =
                    fun c' => onlineSince room user c' earlier := by
                  funext c'
                  rw [onlineSince, if_neg fun hall => hkey ⟨hall.2.1, hall.2.2.1⟩]
                rw [hsince]
                have hne : presenceKey room user ≠ presenceKey r u :=
                  presenceKey_ne fun hall => hkey ⟨hall.1.symm, hall.2.symm⟩
                refine hnow.same ?_
                show presenceTouch _ _ _ _ _ _ = _
                rw [presenceTouch, expire, store_other hne, zadd, store_other hne,
                  zremrangebyscore, store_other hne]
      | offline r u c t =>
          by_cases hkey : r = room ∧ u = user
          · obtain ⟨rfl, rfl⟩ := hkey
            have hsince : (fun c' => onlineSince r u c' (.offline r u c t :: earlier)) =
                Function.update (fun c' => onlineSince r u c' earlier) c none := by
              funext c'
              rw [onlineSince]
              by_cases hc : c = c'
              · subst hc
                rw [Function.update_self, if_pos ⟨rfl, rfl, rfl⟩]
              · rw [Function.update_of_ne (Ne.symm hc), if_neg fun hall => hc hall.2.2]
            rw [hsince]
            exact hnow.remove c
          · have hsince : (fun c' => onlineSince room user c' (.offline r u c t :: earlier)) =
                fun c' => onlineSince room user c' earlier := by
              funext c'
              rw [onlineSince, if_neg fun hall => hkey ⟨hall.1, hall.2.1⟩]
            rw [hsince]
            exact hnow.same
              (store_other (presenceKey_ne fun hall => hkey ⟨hall.1.symm, hall.2.symm⟩))
      | peerStates r u peers active t =>
          cases peers with
          | none => exact hnow
          | some peers => exact hnow.countPeers active peers

/-- **PRESENCE**: whatever was called before, for any rooms, users and connections, a peer is
    reported online exactly when it is active and some connection of it in the room has
    called `online` within the last 90 seconds and not `offline` since. -/
theorem peer_states_spec {earlier : List PresenceCall} {room user : Nat} {peers : List Nat}
    {active : Nat → Bool} {now : Time}
    (h : ClockOrdered (.peerStates room user (some peers) active now :: earlier)) :
    ∃ states, (PresenceCall.run (redisAfter earlier)
        (.peerStates room user (some peers) active now)).2 = .states states ∧
      states.map Prod.fst = peers ∧
      ∀ e ∈ states, e.2 = true ↔ active e.1 = true ∧ OnlineWithin earlier now room e.1 := by
  obtain ⟨hstart, -, hearlier⟩ := h
  obtain ⟨hnames, hstates⟩ := countPeers_states active
    (fun peer => (keyTracks_after hearlier room peer).later hstart) peers
  exact ⟨_, rfl, hnames, hstates⟩

/-- Two connections of user 2 in room 7, of which one is closed, as user 1 sees them at the
    last moment and right after it. -/
def twoTabs : List PresenceCall :=
  [.offline 7 2 ⟨5, by decide⟩ 50000000, .online 7 2 ⟨6, by decide⟩ true 20000000 20000001,
    .online 7 2 ⟨5, by decide⟩ true 10000000 10000002]

theorem peer_states_spec_twoTabs :
    (∃ states, (PresenceCall.run (redisAfter twoTabs)
        (.peerStates 7 1 (some [2]) (fun _ => true) 109999999)).2 = .states states ∧
      ∀ e ∈ states, e.2 = true) ∧
    ∃ states, (PresenceCall.run (redisAfter twoTabs)
        (.peerStates 7 1 (some [2]) (fun _ => true) 110000000)).2 = .states states ∧
      ∀ e ∈ states, e.2 = false := by
  have hclock : ∀ now : Time, 50000000 ≤ now →
      ClockOrdered (.peerStates 7 1 (some [2]) (fun _ => true) now :: twoTabs) := by
    intro now hle
    exact ⟨hle, Nat.le_refl _, by decide, by decide, by decide, by decide, by decide, by decide,
      trivial⟩
  constructor
  · obtain ⟨states, hrun, hnames, hstates⟩ := peer_states_spec (hclock 109999999 (by decide))
    refine ⟨states, hrun, fun e he => (hstates e he).mpr ⟨rfl, ?_⟩⟩
    have hpeer : e.1 = 2 :=
      List.mem_singleton.mp (hnames ▸ List.mem_map_of_mem (f := Prod.fst) he)
    rw [hpeer]
    exact ⟨⟨6, by decide⟩, 20000000, by decide, by decide⟩
  · obtain ⟨states, hrun, hnames, hstates⟩ := peer_states_spec (hclock 110000000 (by decide))
    refine ⟨states, hrun, fun e he => Bool.eq_false_iff.mpr fun htrue => ?_⟩
    obtain ⟨-, c, t, hsince, hlt⟩ := (hstates e he).mp htrue
    have hpeer : e.1 = 2 :=
      List.mem_singleton.mp (hnames ▸ List.mem_map_of_mem (f := Prod.fst) he)
    have hlatest : t ≤ 20000000 := by
      rw [hpeer] at hsince
      simp only [twoTabs, onlineSince] at hsince
      split_ifs at hsince
      all_goals
        cases hsince
        decide
    exact Nat.not_lt.mpr (Nat.add_le_add_right hlatest presenceTtl) hlt

end Market
