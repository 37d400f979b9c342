import Marketplace.Presence

/-! # The lifetime of a socket

    `ChatConsumer` of `chat/consumers.py`: the groups that its channel joins, and the
    presence of its connection.  Any call of the channel layer or of the presence backend
    may raise, whether it was carried out or not.  The frames that history and messages
    answer with are left out. -/

namespace Market

open SortedSets

/-! ## The consumer -/

/-- What becomes of a call to another process: it returns, or it raises, and may have been
    carried out all the same. -/
inductive CallOutcome where
  | returns
  | raises (applied : Bool)
  deriving DecidableEq

namespace CallOutcome

def ok : CallOutcome → Bool
  | .returns => true
  | .raises _ => false

/-- The call was carried out. -/
def applied : CallOutcome → Bool
  | .returns => true
  | .raises applied => applied

end CallOutcome

def DORMANT_CLOSE_CODE : Nat := 4403

inductive Frame where
  | accept
  | close (code : Nat)
  | deliveryDegraded
  | accountDormant
  | presenceUnavailable
  | presence (states : List (Nat × Bool))

/-- The attributes that `connect` sets. -/
structure ConsumerAttributes where
  room : Nat
  user : Nat
  connection : ConnectionId
  groupJoined : Bool
  userCloseGroupJoined : Bool
  presenceOnline : Bool

/-- A consumer, the groups that its channel is in, those it was discarded from, and the
    frames that were sent. -/
structure ConsumerState where
  redis : Redis
  groups : List String := []
  discards : List String := []
  attributes : Option ConsumerAttributes := none
  sent : List Frame := []

def roomGroupName (room : Nat) : String := "chat.room." ++ toString room
def userCloseGroupName (user : Nat) : String := "chat.user-close." ++ toString user

def ConsumerState.send (st : ConsumerState) (frame : Frame) : ConsumerState :=
  { st with sent := st.sent ++ [frame] }

def groupAdd (group : String) (outcome : CallOutcome) (groups : List String) : List String :=
  if outcome.applied then groups ++ [group] else groups

def groupDiscard (group : String) (joined : Bool) (outcome : CallOutcome) (st : ConsumerState) :
    ConsumerState :=
  if joined then
    { st with
      discards := st.discards ++ [group]
      groups := if outcome.applied then st.groups.filter (· ≠ group) else st.groups }
  else st

/-- `presence.online(...)`, which may be refused or raise, and whether it returned. -/
structure OnlineInput where
  authorized : Bool
  now : Time
  touched : Time
  touch : CallOutcome

/-- The member was added. -/
def OnlineInput.takesEffect (i : OnlineInput) : Bool := i.authorized && i.touch.applied

def OnlineInput.returned (i : OnlineInput) : Bool := i.authorized && i.touch.ok

def OnlineInput.run (i : OnlineInput) (room user : Nat) (connection : ConnectionId) (db : Redis) :
    Redis :=
  if i.takesEffect then
    presenceTouch db i.touched (presenceKey room user) (uuidStr connection) (i.now + presenceTtl)
  else db

/-- What `connect` meets with: whether the user and the origin are admitted, whether the
    room is authorized, and what becomes of its calls. -/
structure Connecting where
  room : Nat
  user : Nat
  connection : ConnectionId
  admitted : Bool
  authorized : Bool
  roomAdd : CallOutcome
  userCloseAdd : CallOutcome
  online : OnlineInput

def connect (c : Connecting) (st : ConsumerState) : ConsumerState :=
  if !c.admitted || !c.authorized then st.send (.close DORMANT_CLOSE_CODE)
  else
    let degraded := !c.roomAdd.ok || !c.userCloseAdd.ok
    { redis := c.online.run c.room c.user c.connection st.redis
      groups := groupAdd (userCloseGroupName c.user) c.userCloseAdd
        (groupAdd (roomGroupName c.room) c.roomAdd st.groups)
      discards := st.discards
      attributes := some {
        room := c.room, user := c.user, connection := c.connection
        groupJoined := c.roomAdd.ok
        userCloseGroupJoined := c.userCloseAdd.ok
        presenceOnline := c.online.returned }
      sent := st.sent ++ .accept :: if degraded then [.deliveryDegraded] else [] }

/-- What `disconnect` meets with. -/
structure Disconnecting where
  now : Time
  remove : CallOutcome
  roomDiscard : CallOutcome
  userCloseDiscard : CallOutcome

def disconnect (d : Disconnecting) (st : ConsumerState) : ConsumerState :=
  match st.attributes with
  | none => st
  | some a =>
      let redis :=
        if a.presenceOnline && d.remove.applied then
          presenceRemove st.redis d.now (presenceKey a.room a.user) (uuidStr a.connection)
        else st.redis
      groupDiscard (userCloseGroupName a.user) a.userCloseGroupJoined d.userCloseDiscard
        (groupDiscard (roomGroupName a.room) a.groupJoined d.roomDiscard { st with redis := redis })

/-- What happens to a socket between, and to the presence of others. -/
inductive ConsumerEvent where
  /-- The operation `presence`: the peers and their states, unless a call raises. -/
  | presence (authorized : Bool) (online : OnlineInput) (peers : Option (List Nat))
      (active : Nat → Bool) (now : Time) (count : CallOutcome)
  /-- Any other operation: it touches neither the groups nor the presence. -/
  | exchange (authorized : Bool)
  | elsewhere (call : PresenceCall)

/-- `_send_presence`. -/
def sendPresence (a : ConsumerAttributes) (online : OnlineInput) (peers : Option (List Nat))
    (active : Nat → Bool) (now : Time) (count : CallOutcome) (st : ConsumerState) : ConsumerState :=
  let db := online.run a.room a.user a.connection st.redis
  if !online.returned then { st with redis := db }.send .presenceUnavailable
  else match peers with
    | none => { st with redis := db }.send .presenceUnavailable
    | some peers =>
        let counted := countPeers now a.room active peers db
        let st := { st with redis := if count.applied then counted.1 else db }
        if count.ok then st.send (.presence counted.2) else st.send .presenceUnavailable

def ConsumerEvent.step (st : ConsumerState) : ConsumerEvent → ConsumerState
  | .presence authorized online peers active now count =>
      match st.attributes with
      | none => st
      | some a =>
          if !authorized then (st.send .accountDormant).send (.close DORMANT_CLOSE_CODE)
          else sendPresence a online peers active now count st
  | .exchange authorized =>
      if !authorized then (st.send .accountDormant).send (.close DORMANT_CLOSE_CODE) else st
  | .elsewhere call => { st with redis := (call.run st.redis).1 }

/-- A socket from `connect` to right before `disconnect`. -/
def opened (c : Connecting) (events : List ConsumerEvent) (st : ConsumerState) : ConsumerState :=
  events.foldl ConsumerEvent.step (connect c st)

/-! ## Membership -/

/-- The member is in the sorted set of the key. -/
def isMember (db : Redis) (key member : String) : Bool :=
  match db key with
  | none => false
  | some set => set.entries.any (·.1 == member)

/-- The connection is in the presence set of its user in its room. -/
def Present (db : Redis) (room user : Nat) (connection : ConnectionId) : Prop :=
  isMember db (presenceKey room user) (uuidStr connection) = true

instance (db : Redis) (room user : Nat) (connection : ConnectionId) :
    Decidable (Present db room user connection) :=
  inferInstanceAs (Decidable (_ = true))

variable {db : Redis} {now : Time} {key member other : String} {set : SortedSet String}
  {room user : Nat} {connection : ConnectionId}

/-- A member of a stored set has an entry in it. -/
theorem mem_of_isMember_store (h : isMember (store db key set) key member = true) :
    ∃ e ∈ set.entries, e.1 = member := by
  rw [isMember, store_self] at h
  split at h
  · exact nomatch h
  · next found hfound =>
      split at hfound
      · exact nomatch hfound
      · obtain rfl := Option.some.inj hfound
        obtain ⟨e, he, hmember⟩ := List.any_eq_true.mp h
        exact ⟨e, he, beq_iff_eq.mp hmember⟩

theorem isMember_of_lookup {e : String × Nat} (he : e ∈ (lookup db now key).entries) :
    isMember db key e.1 = true := by
  rw [lookup] at he
  split at he
  · cases he
  · next found hfound =>
      split at he
      · rw [isMember, hfound]
        exact List.any_eq_true.mpr ⟨e, he, beq_self_eq_true _⟩
      · cases he

/-- A command that adds no entry adds no member. -/
theorem isMember_of_store (now : Time)
    (hentries : set.entries ⊆ (lookup db now key).entries)
    (h : isMember (store db key set) other member = true) : isMember db other member = true := by
  by_cases hkey : other = key
  · subst hkey
    obtain ⟨e, he, rfl⟩ := mem_of_isMember_store h
    exact isMember_of_lookup (hentries he)
  · rw [isMember, store_other hkey] at h
    exact h

/-- A member after a pruning was one before. -/
theorem isMember_of_prune (h : isMember (zremrangebyscore db now key now) other member = true) :
    isMember db other member = true :=
  isMember_of_store now (fun _ he => (List.mem_filter.mp he).1) h

/-- A member after a removal was one before. -/
theorem isMember_of_remove {gone : String}
    (h : isMember (presenceRemove db now key gone) other member = true) :
    isMember db other member = true :=
  isMember_of_store now (fun _ he => (List.mem_filter.mp he).1) h

/-- A member after an expiry was one before. -/
theorem isMember_of_expire {ttl : Nat} (h : isMember (expire db now key ttl) other member = true) :
    isMember db other member = true := by
  rw [expire] at h
  refine isMember_of_store now ?_ h
  exact fun _ he => he

/-- Touching a connection adds no other one. -/
theorem isMember_of_touch {touched : String} {expiresAt : Time}
    (h : isMember (presenceTouch db now key touched expiresAt) other member = true)
    (hne : ¬ (other = key ∧ member = touched)) : isMember db other member = true := by
  have hzadd : isMember (zadd (zremrangebyscore db now key now) now key touched expiresAt) other
      member = true := isMember_of_expire h
  by_cases hkey : other = key
  · subst hkey
    obtain ⟨e, he, rfl⟩ := mem_of_isMember_store hzadd
    rcases List.mem_append.mp he with he | he
    · exact isMember_of_prune (isMember_of_lookup (List.mem_filter.mp he).1)
    · exact absurd ⟨rfl, congrArg Prod.fst (List.mem_singleton.mp he)⟩ hne
  · rw [isMember, zadd, store_other hkey] at hzadd
    exact isMember_of_prune hzadd

/-- A removed connection is gone. -/
theorem not_isMember_remove : isMember (presenceRemove db now key member) key member = false := by
  rw [Bool.eq_false_iff]
  intro h
  obtain ⟨e, he, heq⟩ := mem_of_isMember_store h
  exact of_decide_eq_true (List.mem_filter.mp he).2 heq

/-- Who is present after the peers were counted was present before. -/
theorem present_of_countPeers {active : Nat → Bool} {peers : List Nat} {room' : Nat}
    (h : Present (countPeers now room' active peers db).1 room user connection) :
    Present db room user connection := by
  induction peers generalizing db with
  | nil => exact h
  | cons peer peers ih =>
      rw [countPeers] at h
      split at h
      · exact isMember_of_prune (ih h)
      · exact ih h

/-- A call for another connection does not make this one present. -/
theorem present_of_call {call : PresenceCall}
    (hother : ∀ room user authorized now touched,
      call ≠ .online room user connection authorized now touched)
    (h : Present (call.run db).1 room user connection) : Present db room user connection := by
  cases call with
  | online r u c authorized t touched =>
      cases authorized with
      | false => exact h
      | true =>
          refine isMember_of_touch h fun hall => ?_
          exact hother r u true t touched (by rw [member_inj hall.2])
  | offline r u c t => exact isMember_of_remove h
  | peerStates r u peers active t =>
      cases peers with
      | none => exact h
      | some peers => exact present_of_countPeers h

/-! ## What a closed socket leaves -/

/-- What is known of an open consumer: unless its flag is set its connection is not present,
    and its channel is in no group but those whose flags are set. -/
structure Tidy (c : Connecting) (st : ConsumerState) : Prop where
  attributes : ∀ a, st.attributes = some a →
    a.room = c.room ∧ a.user = c.user ∧ a.connection = c.connection ∧
      (c.online.returned = true → a.presenceOnline = true)
  presence : (∃ a, st.attributes = some a ∧ a.presenceOnline = true) ∨
    ¬ Present st.redis c.room c.user c.connection
  groups : ∀ g ∈ st.groups, ∃ a, st.attributes = some a ∧
    ((g = roomGroupName a.room ∧ a.groupJoined = true) ∨
      (g = userCloseGroupName a.user ∧ a.userCloseGroupJoined = true))

/-- No call of `connect` raises after it was carried out. -/
structure Connecting.Clean (c : Connecting) : Prop where
  roomAdd : c.roomAdd ≠ .raises true
  userCloseAdd : c.userCloseAdd ≠ .raises true
  online : c.online.takesEffect = true → c.online.returned = true

/-- Unless the connection is online since `connect`, no operation makes it so. -/
def ConsumerEvent.Clean (c : Connecting) : ConsumerEvent → Prop
  | .presence authorized online _ _ _ _ =>
      authorized = true → online.takesEffect = true → c.online.returned = true
  | _ => True

/-- The call is not for the connection of this socket. -/
def ConsumerEvent.Others (c : Connecting) : ConsumerEvent → Prop
  | .elsewhere call => ∀ room user authorized now touched,
      call ≠ .online room user c.connection authorized now touched
  | _ => True

/-- A call that was applied and did not fail after it is one that returned. -/
theorem CallOutcome.ok_of_applied {o : CallOutcome} (h : o ≠ .raises true)
    (happlied : o.applied = true) : o.ok = true := by
  cases o with
  | returns => rfl
  | raises applied =>
      obtain rfl : applied = true := happlied
      exact absurd rfl h

/-- The groups after an addition. -/
theorem mem_groupAdd {g group : String} {outcome : CallOutcome} {groups : List String}
    (h : g ∈ groupAdd group outcome groups) :
    g ∈ groups ∨ g = group ∧ outcome.applied = true := by
  rw [groupAdd] at h
  split at h
  · next happlied =>
      rcases List.mem_append.mp h with h | h
      · exact Or.inl h
      · exact Or.inr ⟨List.mem_singleton.mp h, happlied⟩
  · exact Or.inl h

variable {c : Connecting} {st : ConsumerState}

/-- **CONNECT**. -/
theorem tidy_connect (hclean : c.Clean) (hgroups : st.groups = []) (hnone : st.attributes = none)
    (hfresh : ¬ Present st.redis c.room c.user c.connection) : Tidy c (connect c st) := by
  rw [connect]
  split
  · refine ⟨fun a ha => ?_, Or.inr hfresh, fun g hg => ?_⟩
    · rw [ConsumerState.send, hnone] at ha
      exact nomatch ha
    · rw [ConsumerState.send, hgroups] at hg
      exact nomatch hg
  · refine ⟨fun a ha => ?_, ?_, fun g hg => ?_⟩
    · obtain rfl := Option.some.inj ha
      exact ⟨rfl, rfl, rfl, fun h => h⟩
    · cases heffect : c.online.takesEffect with
      | true => exact Or.inl ⟨_, rfl, hclean.online heffect⟩
      | false =>
          refine Or.inr ?_
          show ¬ Present (c.online.run c.room c.user c.connection st.redis) _ _ _
          rw [OnlineInput.run, heffect]
          exact hfresh
    · refine ⟨_, rfl, ?_⟩
      rcases mem_groupAdd hg with hg | ⟨hg, happlied⟩
      · rcases mem_groupAdd hg with hg | ⟨hg, happlied⟩
        · rw [hgroups] at hg
          exact nomatch hg
        · exact Or.inl ⟨hg, CallOutcome.ok_of_applied hclean.roomAdd happlied⟩
      · exact Or.inr ⟨hg, CallOutcome.ok_of_applied hclean.userCloseAdd happlied⟩

/-- A step that changes neither the attributes nor the groups. -/
theorem Tidy.keep {st' : ConsumerState} (h : Tidy c st)
    (hattributes : st'.attributes = st.attributes)
    (hgroups : st'.groups = st.groups)
    (hpresence : (∃ a, st.attributes = some a ∧ a.presenceOnline = true) ∨
      (Present st'.redis c.room c.user c.connection →
        Present st.redis c.room c.user c.connection)) : Tidy c st' := by
  refine ⟨fun a ha => h.attributes a (hattributes ▸ ha), ?_, ?_⟩
  · rw [hattributes]
    rcases hpresence with honline | hpresent
    · exact Or.inl honline
    · rcases h.presence with honline | habsent
      · exact Or.inl honline
      · exact Or.inr fun hp => habsent (hpresent hp)
  · rw [hattributes, hgroups]
    exact h.groups

/-- **STEP**. -/
theorem Tidy.step {e : ConsumerEvent} (h : Tidy c st) (hclean : e.Clean c) (hothers : e.Others c) :
    Tidy c (e.step st) := by
  cases e with
  | exchange authorized =>
      cases authorized with
      | true => exact h
      | false => exact h.keep rfl rfl (Or.inr fun hp => hp)
  | elsewhere call => exact h.keep rfl rfl (Or.inr fun hp => present_of_call hothers hp)
  | presence authorized online peers active now count =>
      rw [ConsumerEvent.step]
      cases ha : st.attributes with
      | none => exact h
      | some a =>
          obtain ⟨hroom, huser, hconnection, hflag⟩ := h.attributes a ha
          cases authorized with
          | false => exact h.keep rfl rfl (Or.inr fun hp => hp)
          | true =>
              -- a member that was added is noted in the attributes of the socket
              have hpresence : (∃ a, st.attributes = some a ∧ a.presenceOnline = true) ∨
                  online.run a.room a.user a.connection st.redis = st.redis := by
                cases heffect : online.takesEffect with
                | true => exact Or.inl ⟨a, ha, hflag (hclean rfl heffect)⟩
                | false =>
                    refine Or.inr ?_
                    rw [OnlineInput.run, heffect]
                    rfl
              have hkeep : ∀ {st' : ConsumerState}, st'.attributes = st.attributes →
                  st'.groups = st.groups →
                  (Present st'.redis c.room c.user c.connection →
                    Present (online.run a.room a.user a.connection st.redis) c.room c.user
                      c.connection) → Tidy c st' := by
                intro st' hattributes hgroups hp
                refine h.keep hattributes hgroups ?_
                rcases hpresence with honline | hsame
                · exact Or.inl honline
                · rw [hsame] at hp
                  exact Or.inr hp
              have hfailed : Tidy c ({ st with
                  redis := online.run a.room a.user a.connection st.redis }.send
                    .presenceUnavailable) := hkeep rfl rfl fun hp => hp
              show Tidy c (sendPresence a online peers active now count st)
              cases peers with
              | none =>
                  rw [sendPresence]
                  split
                  · exact hfailed
                  · exact hfailed
              | some peers =>
                  rw [sendPresence]
                  dsimp only
                  split
                  · exact hfailed
                  · -- counting the peers prunes their sets, and adds nobody
                    have hcounted : ∀ frame, Tidy c ({ st with
                        redis := if count.applied then
                          (countPeers now a.room active peers
                            (online.run a.room a.user a.connection st.redis)).1
                        else online.run a.room a.user a.connection st.redis }.send frame) := by
                      refine fun frame => hkeep rfl rfl fun hp => ?_
                      cases happlied : count.applied with
                      | false =>
                          rw [ConsumerState.send, happlied] at hp
                          exact hp
                      | true =>
                          rw [ConsumerState.send, happlied] at hp
                          exact present_of_countPeers hp
                    split
                    · exact hcounted _
                    · exact hcounted _

/-- **RUN**: a socket is tidy right before `disconnect`. -/
theorem tidy_opened {events : List ConsumerEvent} (h : Tidy c st)
    (hclean : ∀ e ∈ events, e.Clean c) (hothers : ∀ e ∈ events, e.Others c) :
    Tidy c (events.foldl ConsumerEvent.step st) := by
  induction events generalizing st with
  | nil => exact h
  | cons e events ih =>
      refine ih (h.step (hclean e List.mem_cons_self) (hothers e List.mem_cons_self)) ?_ ?_
      · exact fun e' he' => hclean e' (List.mem_cons_of_mem _ he')
      · exact fun e' he' => hothers e' (List.mem_cons_of_mem _ he')

@[simp] theorem groupDiscard_redis (group : String) (joined : Bool) (outcome : CallOutcome)
    (st : ConsumerState) : (groupDiscard group joined outcome st).redis = st.redis := by
  rw [groupDiscard]
  split <;> rfl

/-- What was to be discarded has been. -/
theorem mem_groupDiscard {group g : String} {joined : Bool} {outcome : CallOutcome}
    (h : g ∈ st.discards ∨ g = group ∧ joined = true) :
    g ∈ (groupDiscard group joined outcome st).discards := by
  rw [groupDiscard]
  split
  · rcases h with h | ⟨rfl, -⟩
    · exact List.mem_append_left _ h
    · exact List.mem_append_right _ List.mem_cons_self
  · next hjoined =>
      rcases h with h | ⟨-, htrue⟩
      · exact h
      · exact absurd htrue hjoined

/-- **DISCONNECT**. -/
theorem Tidy.disconnect (h : Tidy c st) (d : Disconnecting) :
    (d.remove = .returns →
      ¬ Present (disconnect d st).redis c.room c.user c.connection) ∧
    ∀ g ∈ st.groups, g ∈ (disconnect d st).discards := by
  constructor
  · intro hremove
    cases ha : st.attributes with
    | none =>
        rw [Market.disconnect, ha]
        rcases h.presence with ⟨a, ha', -⟩ | habsent
        · rw [ha] at ha'
          exact nomatch ha'
        · exact habsent
    | some a =>
        obtain ⟨hroom, huser, hconnection, -⟩ := h.attributes a ha
        rw [Market.disconnect, ha]
        dsimp only
        rw [groupDiscard_redis, groupDiscard_redis, hremove]
        cases honline : a.presenceOnline with
        | true =>
            show ¬ Present (presenceRemove st.redis d.now _ _) _ _ _
            rw [hroom, huser, hconnection, Present, not_isMember_remove]
            exact Bool.false_ne_true
        | false =>
            rcases h.presence with ⟨a', ha', htrue⟩ | habsent
            · rw [ha] at ha'
              cases ha'
              rw [honline] at htrue
              exact nomatch htrue
            · exact habsent
  · intro g hg
    obtain ⟨a, ha, hjoined⟩ := h.groups g hg
    rw [Market.disconnect, ha]
    refine mem_groupDiscard ?_
    rcases hjoined with hroom | huser
    · exact Or.inl (mem_groupDiscard (Or.inr hroom))
    · exact Or.inr huser

/-- **CLOSED SOCKET**: in every life of a socket in which no call of `connect` raises after
    it was carried out, and no operation makes a connection present that is not so since
    `connect`, `disconnect` leaves no presence behind and discards every group joined. -/
theorem closed_socket_leaves_nothing {c : Connecting} {events : List ConsumerEvent}
    {d : Disconnecting} {st : ConsumerState} (hgroups : st.groups = [])
    (hnone : st.attributes = none) (hfresh : ¬ Present st.redis c.room c.user c.connection)
    (hothers : ∀ e ∈ events, e.Others c) (hclean : c.Clean) (hevents : ∀ e ∈ events, e.Clean c) :
    (d.remove = .returns →
      ¬ Present (disconnect d (opened c events st)).redis c.room c.user c.connection) ∧
    ∀ g ∈ (opened c events st).groups, g ∈ (disconnect d (opened c events st)).discards :=
  (tidy_opened (tidy_connect hclean hgroups hnone hfresh) hevents hothers).disconnect d

/-! ## A presence that is left behind -/

def freshConsumer : ConsumerState := { redis := fun _ => none }

theorem five_lt_uuids : 5 < 2 ^ 128 := by decide

/-- A socket of user 1 in room 7 whose first `touch` ends as given. -/
def socketOf (touch : CallOutcome) : Connecting where
  room := 7
  user := 1
  connection := ⟨5, five_lt_uuids⟩
  admitted := true
  authorized := true
  roomAdd := .raises false
  userCloseAdd := .returns
  online := ⟨true, 10000000, 10000001, touch⟩

/-- The operation `presence`, with nothing failing. -/
def askPresence : ConsumerEvent :=
  .presence true ⟨true, 20000000, 20000001, .returns⟩ (some [2]) (fun _ => true) 20000002 .returns

def closeSocket : Disconnecting := ⟨30000000, .returns, .returns, .returns⟩

theorem closed_socket_leaves_nothing_online :
    ¬ Present (disconnect closeSocket (opened (socketOf .returns) [askPresence]
      freshConsumer)).redis 7 1 ⟨5, by decide⟩ := by
  have hpresence : ∀ e ∈ [askPresence], e.Clean (socketOf .returns) := by
    intro e he
    rw [List.mem_singleton.mp he]
    exact fun _ _ => rfl
  have hothers : ∀ e ∈ [askPresence], e.Others (socketOf .returns) := by
    intro e he
    rw [List.mem_singleton.mp he]
    trivial
  exact (closed_socket_leaves_nothing (c := socketOf .returns) (d := closeSocket) rfl rfl
    (by decide) hothers ⟨by decide, by decide, fun _ => rfl⟩ hpresence).1 rfl

/-- **LEFT BEHIND**: the connection is not present when `connect` ends, an operation makes it
    present, and `disconnect` does not remove it. -/
theorem presence_left_behind :
    ¬ Present (connect (socketOf (.raises false)) freshConsumer).redis 7 1 ⟨5, by decide⟩ ∧
    closeSocket.remove = .returns ∧
    Present (disconnect closeSocket (opened (socketOf (.raises false)) [askPresence]
      freshConsumer)).redis 7 1 ⟨5, by decide⟩ := by
  refine ⟨by decide, rfl, by decide +kernel⟩

end Market
