import Mathlib.Data.List.Basic
import Mathlib.Logic.Function.Basic

/-! # Sorted sets that expire

    Keys of a store hold sorted sets, whose members have scores; a key may be given a
    time after which it is gone as a whole.  A lease is a member whose score is the time
    at which it ends: renewed, released and counted by the commands on sorted sets. -/

namespace SortedSets

variable {K M : Type}

/-- The members with their scores, and the time after which the key is gone. -/
structure SortedSet (M : Type) where
  entries : List (M × Nat)
  expireAt : Option Nat

/-- A store; a key without members does not exist. -/
abbrev Keyspace (K M : Type) := K → Option (SortedSet M)

/-! ## Commands -/

/-- The set has not expired. -/
def SortedSet.liveAt (set : SortedSet M) (now : Nat) : Bool :=
  match set.expireAt with
  | none => true
  | some t => now ≤ t

/-- What a command finds at a key. -/
def lookup (db : Keyspace K M) (now : Nat) (key : K) : SortedSet M :=
  match db key with
  | none => ⟨[], none⟩
  | some set => if set.liveAt now then set else ⟨[], none⟩

def store [DecidableEq K] (db : Keyspace K M) (key : K) (set : SortedSet M) : Keyspace K M :=
  Function.update db key (if set.entries.isEmpty then none else some set)

def zadd [DecidableEq K] [DecidableEq M] (db : Keyspace K M) (now : Nat) (key : K) (member : M)
    (score : Nat) : Keyspace K M :=
  let set := lookup db now key
  store db key { set with
    entries := set.entries.filter (fun e => e.1 ≠ member) ++ [(member, score)] }

def zrem [DecidableEq K] [DecidableEq M] (db : Keyspace K M) (now : Nat) (key : K)
    (member : M) : Keyspace K M :=
  let set := lookup db now key
  store db key { set with entries := set.entries.filter fun e => e.1 ≠ member }

/-- `ZREMRANGEBYSCORE key -inf max`, which removes the score `max` as well. -/
def zremrangebyscore [DecidableEq K] (db : Keyspace K M) (now : Nat) (key : K) (max : Nat) :
    Keyspace K M :=
  let set := lookup db now key
  store db key { set with entries := set.entries.filter fun e => max < e.2 }

/-- `ZCOUNT key min +inf`, which counts the score `min` as well. -/
def zcount (db : Keyspace K M) (now : Nat) (key : K) (min : Nat) : Nat :=
  (lookup db now key).entries.countP fun e => min ≤ e.2

/-- `EXPIRE`, which does nothing to a key that does not exist. -/
def expire [DecidableEq K] (db : Keyspace K M) (now : Nat) (key : K) (ttl : Nat) :
    Keyspace K M :=
  store db key { lookup db now key with expireAt := some (now + ttl) }

/-! ## What is found -/

variable {db : Keyspace K M} {now now' : Nat} {key key' : K} {member : M} {set : SortedSet M}

theorem lookup_live (db : Keyspace K M) (now : Nat) (key : K) :
    (lookup db now key).liveAt now = true := by
  rw [lookup]
  split
  · rfl
  · split
    · next h => exact h
    · rfl

section Stored

variable [DecidableEq K]

theorem store_other (h : key' ≠ key) : store db key set key' = db key' :=
  Function.update_of_ne h _ _

theorem store_self : store db key set key = if set.entries.isEmpty then none else some set :=
  Function.update_self ..

/-- The entries of a set that was stored. -/
theorem lookup_store (h : set.liveAt now = true) :
    (lookup (store db key set) now key).entries = set.entries := by
  rw [lookup, store_self]
  split
  · next hnone =>
      split at hnone
      · next hempty => exact (List.isEmpty_iff.mp hempty).symm
      · exact nomatch hnone
  · next found hsome =>
      split at hsome
      · exact nomatch hsome
      · obtain rfl := Option.some.inj hsome
        rw [if_pos h]

end Stored

/-! ## Leases -/

variable {ttl : Nat} {since : M → Option Nat} {found : Option (SortedSet M)}
  {entries : List (M × Nat)}

/-- The entries are leases: since when each member has its lease, and how long a lease is. -/
structure Leases (entries : List (M × Nat)) (now ttl : Nat) (since : M → Option Nat) :
    Prop where
  /-- Every entry is a lease, and its score is the end of it. -/
  sound : ∀ e ∈ entries, ∃ t, since e.1 = some t ∧ e.2 = t + ttl
  /-- Every lease that has not ended is an entry. -/
  complete : ∀ m t, since m = some t → now < t + ttl → (m, t + ttl) ∈ entries

/-- The key has the leases, and is not gone before they end. -/
structure Tracks (found : Option (SortedSet M)) (now ttl : Nat) (since : M → Option Nat) :
    Prop where
  sound : ∀ set, found = some set → ∀ e ∈ set.entries, ∃ t, since e.1 = some t ∧ e.2 = t + ttl
  complete : ∀ m t, since m = some t → now < t + ttl →
    ∃ set, found = some set ∧ (m, t + ttl) ∈ set.entries ∧ ∀ e ∈ set.expireAt, t + ttl ≤ e
  past : ∀ m t, since m = some t → t ≤ now

theorem tracks_none (now ttl : Nat) : Tracks (M := M) none now ttl fun _ => none where
  sound _ h := nomatch h
  complete _ _ h := nomatch h
  past _ _ h := nomatch h

theorem Tracks.later (h : Tracks found now ttl since) (hle : now ≤ now') :
    Tracks found now' ttl since where
  sound := h.sound
  complete m t hm hlt := h.complete m t hm (Nat.lt_of_le_of_lt hle hlt)
  past m t hm := Nat.le_trans (h.past m t hm) hle

/-- A lease that has not ended is found. -/
theorem Tracks.lookup_complete (h : Tracks (db key) now ttl since) {m : M} {t : Nat}
    (hm : since m = some t) (hlt : now < t + ttl) :
    (m, t + ttl) ∈ (lookup db now key).entries ∧
      ∀ e ∈ (lookup db now key).expireAt, t + ttl ≤ e := by
  obtain ⟨set, hset, hmem, hexpire⟩ := h.complete m t hm hlt
  have hlive : set.liveAt now = true := by
    rw [SortedSet.liveAt]
    split
    · rfl
    · next e he => exact decide_eq_true (Nat.le_trans (Nat.le_of_lt hlt) (hexpire e he))
  have hlookup : lookup db now key = set := by
    rw [lookup, hset]
    exact if_pos hlive
  rw [hlookup]
  exact ⟨hmem, hexpire⟩

/-- What a command finds at the key are the leases. -/
theorem Tracks.leases (h : Tracks (db key) now ttl since) :
    Leases (lookup db now key).entries now ttl since := by
  refine ⟨fun e he => ?_, fun m t hm hlt => (h.lookup_complete hm hlt).1⟩
  rw [lookup] at he
  split at he
  · exact nomatch he
  · next set hset =>
      split at he
      · exact h.sound set hset e he
      · exact nomatch he

/-- **COUNT**: the leases that have not ended. -/
theorem Leases.count_pos (h : Leases entries now ttl since) {p : M × Nat → Bool}
    (hp : ∀ e, p e = true ↔ now < e.2) :
    0 < entries.countP p ↔ ∃ m t, since m = some t ∧ now < t + ttl := by
  rw [List.countP_pos_iff]
  constructor
  · rintro ⟨e, he, hlive⟩
    obtain ⟨t, hsince, hscore⟩ := h.sound e he
    refine ⟨e.1, t, hsince, ?_⟩
    rw [← hscore]
    exact (hp e).mp hlive
  · rintro ⟨m, t, hm, hlt⟩
    exact ⟨_, h.complete m t hm hlt, (hp _).mpr hlt⟩

/-- Entries whose lease has ended may go. -/
theorem Leases.prune (h : Leases entries now ttl since) {cut : Nat} (hcut : cut ≤ now) :
    Leases (entries.filter fun e => cut < e.2) now ttl since where
  sound e he := h.sound e (List.mem_filter.mp he).1
  complete m t hm hlt :=
    List.mem_filter.mpr ⟨h.complete m t hm hlt, decide_eq_true (Nat.lt_of_le_of_lt hcut hlt)⟩

section Members

variable [DecidableEq M]

/-- A lease is renewed. -/
theorem Leases.renew (h : Leases entries now ttl since) (member : M) (t : Nat) :
    Leases (entries.filter (fun e => e.1 ≠ member) ++ [(member, t + ttl)]) now ttl
      (Function.update since member (some t)) := by
  constructor
  · intro e he
    rcases List.mem_append.mp he with he | he
    · obtain ⟨he, hne⟩ := List.mem_filter.mp he
      rw [Function.update_of_ne (of_decide_eq_true hne)]
      exact h.sound e he
    · rw [List.mem_singleton.mp he]
      exact ⟨t, Function.update_self .., rfl⟩
  · intro m t' hm hlt
    by_cases hmember : m = member
    · subst hmember
      rw [Function.update_self] at hm
      obtain rfl := Option.some.inj hm
      exact List.mem_append_right _ List.mem_cons_self
    · rw [Function.update_of_ne hmember] at hm
      exact List.mem_append_left _
        (List.mem_filter.mpr ⟨h.complete m t' hm hlt, decide_eq_true hmember⟩)

/-- A lease is released. -/
theorem Leases.release (h : Leases entries now ttl since) (member : M) :
    Leases (entries.filter fun e => e.1 ≠ member) now ttl
      (Function.update since member none) := by
  constructor
  · intro e he
    obtain ⟨he, hne⟩ := List.mem_filter.mp he
    rw [Function.update_of_ne (of_decide_eq_true hne)]
    exact h.sound e he
  · intro m t hm hlt
    by_cases hmember : m = member
    · subst hmember
      rw [Function.update_self] at hm
      exact nomatch hm
    · rw [Function.update_of_ne hmember] at hm
      exact List.mem_filter.mpr ⟨h.complete m t hm hlt, decide_eq_true hmember⟩

end Members

/-! ## Leases at a key -/

variable [DecidableEq K]

/-- The key has the leases of a set that is stored there. -/
theorem tracks_store (h : Leases set.entries now ttl since)
    (hexpire : ∀ m t, since m = some t → now < t + ttl → ∀ e ∈ set.expireAt, t + ttl ≤ e)
    (hpast : ∀ m t, since m = some t → t ≤ now) :
    Tracks (store db key set key) now ttl since := by
  rw [store_self]
  constructor
  · intro other hother
    split at hother
    · exact nomatch hother
    · obtain rfl := Option.some.inj hother
      exact h.sound
  · intro m t hm hlt
    have hmem := h.complete m t hm hlt
    rw [if_neg fun hempty => ?_]
    · exact ⟨set, rfl, hmem, hexpire m t hm hlt⟩
    · rw [List.isEmpty_iff.mp hempty] at hmem
      exact nomatch hmem
  · exact hpast

/-- **PRUNING** a key loses no lease that has not ended. -/
theorem Tracks.prune (h : Tracks (db key) now ttl since) :
    Tracks (zremrangebyscore db now key now key) now ttl since :=
  tracks_store (h.leases.prune (Nat.le_refl now))
    (fun _ _ hm hlt => (h.lookup_complete hm hlt).2) h.past

/-- **RELEASE** at a key. -/
theorem Tracks.release [DecidableEq M] (h : Tracks (db key) now ttl since) (member : M) :
    Tracks (zrem db now key member key) now ttl (Function.update since member none) := by
  have hold : ∀ {m : M} {t : Nat}, Function.update since member none m = some t →
      since m = some t := by
    intro m t hm
    by_cases hmember : m = member
    · subst hmember
      rw [Function.update_self] at hm
      exact nomatch hm
    · rw [Function.update_of_ne hmember] at hm
      exact hm
  exact tracks_store (h.leases.release member)
    (fun _ _ hm hlt => (h.lookup_complete (hold hm) hlt).2) fun m t hm => h.past m t (hold hm)

/-- **RENEWAL** at a key: what has ended is removed, the member is added, and the key stays
    for longer than a lease. -/
theorem Tracks.renew [DecidableEq M] (h : Tracks (db key) now ttl since) (member : M) {t : Nat}
    (ht : t ≤ now) {stay : Nat} (hstay : ttl ≤ stay) :
    Tracks (expire (zadd (zremrangebyscore db now key now) now key member (t + ttl)) now key stay
      key) now ttl (Function.update since member (some t)) := by
  have hpruned : Leases (lookup (zremrangebyscore db now key now) now key).entries now ttl
      since := by
    rw [zremrangebyscore, lookup_store]
    · exact h.leases.prune (Nat.le_refl now)
    · exact lookup_live db now key
  have hadded : Leases (lookup (zadd (zremrangebyscore db now key now) now key member (t + ttl))
      now key).entries now ttl (Function.update since member (some t)) := by
    rw [zadd, lookup_store]
    · exact hpruned.renew member t
    · exact lookup_live (zremrangebyscore db now key now) now key
  have hpast : ∀ m t', Function.update since member (some t) m = some t' → t' ≤ now := by
    intro m t' hm
    by_cases hmember : m = member
    · subst hmember
      rw [Function.update_self] at hm
      obtain rfl := Option.some.inj hm
      exact ht
    · rw [Function.update_of_ne hmember] at hm
      exact h.past m t' hm
  refine tracks_store hadded (fun m t' hm _ e he => ?_) hpast
  obtain rfl := Option.some.inj he
  have hle := hpast m t' hm
  omega

end SortedSets
