import Marketplace.Accounts
import Marketplace.TransferSpecs
import Mathlib.Data.List.Nodup
import Mathlib.Data.List.Sort

/-! # The purge of expired notifications

    `purge_expired_notifications` of `notifications/services.py`.  Each of its statements
    reads the clock and what others have committed: notifications that arrived, notifications
    that were read, and those of a member who withdrew, which are gone.  Its own changes are
    committed at its end, or undone. -/

namespace Market

/-! ## The inbox -/

/-- A row of `notifications_notification`: a notification of the store, with the columns that
    say until when it is kept and when it was read. -/
structure InboxRow extends Notification where
  expiresAt : Time
  readAt : Option Time := none
  deriving DecidableEq

/-- `NotificationPurgeState`. -/
structure PurgeState where
  lastSuccessAt : Time
  lastDeletedCount : Nat
  deriving DecidableEq

/-- `notifications_for_user`, of an active user. -/
def notificationsForUser (now : Time) (user : Nat) (rows : List InboxRow) : List InboxRow :=
  rows.filter fun r => r.recipient == user && decide (now ≤ r.expiresAt)

/-- The row that `mark_notification_read` finds. -/
def markNotificationRead (now : Time) (notification recipient : Nat) (rows : List InboxRow) :
    Option InboxRow :=
  rows.find? fun r => r.pk == notification && r.recipient == recipient &&
    decide (now ≤ r.expiresAt)

/-- The moment of a statement: its time, what others committed since the statement before,
    and whether it raises. -/
structure Moment where
  now : Time
  arrivals : List InboxRow := []
  reads : List Nat := []
  deletions : List Nat := []
  fails : Bool := false

/-- `notification.save(update_fields=("read_at",))`, by others. -/
def Moment.markRead (m : Moment) (r : InboxRow) : InboxRow :=
  if m.reads.contains r.pk then { r with readAt := some (r.readAt.getD m.now) } else r

/-- What others commit: `withdraw_account` deletes, `create_notification` inserts. -/
def Moment.others (m : Moment) (rows : List InboxRow) : List InboxRow :=
  (rows.filter fun r => !m.deletions.contains r.pk).map m.markRead ++ m.arrivals

/-- The rows that others have committed, up to the statement with the number. -/
def rowsAt (rows : List InboxRow) (moments : Nat → Moment) : Nat → List InboxRow
  | 0 => (moments 0).others rows
  | n + 1 => (moments (n + 1)).others (rowsAt rows moments n)

/-! ## `purge_expired_notifications` -/

def PURGE_BATCH_SIZE : Nat := 500

structure PurgeResult where
  deletedCount : Nat
  lockAcquired : Bool
  deriving DecidableEq

/-- The ids of the first expired rows. -/
def expiredIds (now : Time) (rows : List InboxRow) : List Nat :=
  (((rows.filter fun r => r.expiresAt < now).map (·.pk)).insertionSort (· ≤ ·)).take
    PURGE_BATCH_SIZE

/-- The loop in progress: the ids of the rows deleted, their number, and the ids selected at
    each check. -/
structure Purging where
  gone : List Nat := []
  deleted : Nat := 0
  batches : List (Nat × List Nat) := []

/-- The rows that the transaction sees. -/
def Purging.visible (p : Purging) (rows : List InboxRow) : List InboxRow :=
  rows.filter fun r => !p.gone.contains r.pk

/-- `Notification.objects.filter(pk__in=ids).delete()`, of the ids of a check. -/
def Purging.delete (p : Purging) (check : Nat) (ids : List Nat) (rows : List InboxRow) :
    Purging where
  gone := p.gone ++ ids
  deleted := p.deleted + (p.visible rows).countP fun r => ids.contains r.pk
  batches := (check, ids) :: p.batches

/-- The loop from the statement with the number on, as long as the fuel lasts: what it did
    and when it checked last, or when it raised. -/
def purgeLoop (rows : List InboxRow) (moments : Nat → Moment) :
    Nat → Nat → Purging → Option (Except Nat (Purging × Nat))
  | 0, _, _ => none
  | fuel + 1, n, p =>
      if (moments n).fails then some (.error n)
      else
        let ids := expiredIds (moments n).now (p.visible (rowsAt rows moments n))
        if ids.isEmpty then some (.ok (p, n))
        else if (moments (n + 1)).fails then some (.error (n + 1))
        else purgeLoop rows moments fuel (n + 2) (p.delete n ids (rowsAt rows moments (n + 1)))

/-- How a purge ended: its result unless it raised, the statement it ended with, the rows
    and the state that it left, and what it had selected. -/
structure PurgeRun where
  result : Option PurgeResult
  ended : Nat
  rows : List InboxRow
  state : Option PurgeState
  batches : List (Nat × List Nat) := []
  lastCheck : Nat := 0

/-- A purge that left nothing of its own. -/
def purgeUndone (rows : List InboxRow) (state : Option PurgeState) (moments : Nat → Moment)
    (result : Option PurgeResult) (ended : Nat) : PurgeRun where
  result := result
  ended := ended
  rows := rowsAt rows moments ended
  state := state

/-- `purge_expired_notifications`, given whether the advisory lock is free. -/
def purgeExpiredNotifications (fuel : Nat) (rows : List InboxRow) (state : Option PurgeState)
    (moments : Nat → Moment) (lockFree : Bool) : Option PurgeRun :=
  if (moments 0).fails then some (purgeUndone rows state moments none 0)
  else if !lockFree then some (purgeUndone rows state moments (some ⟨0, false⟩) 0)
  else
    (purgeLoop rows moments fuel 1 {}).map fun
      | .error n => purgeUndone rows state moments none n
      | .ok (p, n) =>
          -- `update_or_create`, and the commit
          if (moments (n + 1)).fails then purgeUndone rows state moments none (n + 1)
          else if (moments (n + 2)).fails then purgeUndone rows state moments none (n + 2)
          else {
            result := some ⟨p.deleted, true⟩
            ended := n + 2
            rows := p.visible (rowsAt rows moments (n + 2))
            state := some ⟨(moments (n + 1)).now, p.deleted⟩
            batches := p.batches
            lastCheck := n }

/-! ## What others do -/

variable {rows : List InboxRow} {moments : Nat → Moment} {state : Option PurgeState}
  {n m : Nat} {r x : InboxRow} {p : Purging}

/-- Reading a row leaves its key. -/
@[simp] theorem markRead_pk (m : Moment) (r : InboxRow) : (m.markRead r).pk = r.pk := by
  rw [Moment.markRead]
  split <;> rfl

/-- Reading a row leaves its expiry. -/
@[simp] theorem markRead_expiresAt (m : Moment) (r : InboxRow) :
    (m.markRead r).expiresAt = r.expiresAt := by
  rw [Moment.markRead]
  split <;> rfl

/-- A row that others leave is one that they found, or one that arrived. -/
theorem mem_others {m : Moment} {l : List InboxRow} (h : r ∈ m.others l) :
    r ∈ m.arrivals ∨ ∃ y ∈ l, y.pk ∉ m.deletions ∧ r.pk = y.pk ∧ r.expiresAt = y.expiresAt := by
  rcases List.mem_append.mp h with h | h
  · obtain ⟨y, hy, rfl⟩ := List.mem_map.mp h
    obtain ⟨hy, hstays⟩ := List.mem_filter.mp hy
    rw [Bool.not_eq_true', ← Bool.not_eq_true, List.contains_iff_mem] at hstays
    exact Or.inr ⟨y, hy, hstays, markRead_pk m y, markRead_expiresAt m y⟩
  · exact Or.inl h

/-- Primary keys are unique, and that of a new row was in no row before. -/
structure PrimaryKeys (rows : List InboxRow) (moments : Nat → Moment) : Prop where
  unique : ∀ n, ((rowsAt rows moments n).map (·.pk)).Nodup
  fresh : ∀ n k, n < k → ∀ r ∈ rowsAt rows moments n, ∀ x ∈ (moments k).arrivals, x.pk ≠ r.pk

/-- When a row expires does not change. -/
theorem PrimaryKeys.expiresAt (h : PrimaryKeys rows moments) (hr : r ∈ rowsAt rows moments n)
    (hx : x ∈ rowsAt rows moments m) (hle : n ≤ m) (hpk : x.pk = r.pk) :
    x.expiresAt = r.expiresAt := by
  induction hle generalizing x with
  | refl => rw [List.inj_on_of_nodup_map (h.unique n) hx hr hpk]
  | @step k hle ih =>
      rcases mem_others hx with hnew | ⟨y, hy, -, hsame, hexpires⟩
      · exact absurd hpk (h.fresh n (k + 1) (Nat.lt_succ_of_le hle) r hr x hnew)
      · rw [hexpires]
        exact ih hy (hsame.symm.trans hpk)

/-- Until the purge has ended, its deletions are not committed: others who delete the same
    rows wait for the row locks. -/
def RowsLocked (moments : Nat → Moment) (batches : List (Nat × List Nat)) (ended : Nat) : Prop :=
  ∀ batch ∈ batches, ∀ k ∈ batch.2, ∀ j, batch.1 + 1 < j → j ≤ ended → k ∉ (moments j).deletions

/-- It asks for nothing where others delete nothing. -/
theorem rowsLocked_of_none {batches : List (Nat × List Nat)} {ended : Nat}
    (h : ∀ j, (moments j).deletions = []) : RowsLocked moments batches ended := by
  intro batch _ k _ j _ _ hk
  rw [h j] at hk
  exact absurd hk List.not_mem_nil

/-- The notifications of a store. -/
def InboxOf (rows : List InboxRow) (s : Store) : Prop :=
  s.notifications = rows.map (·.toNotification)

/-- A removal of rows is a removal of notifications. -/
theorem InboxOf.removed {s : Store} (h : InboxOf rows s) (ids : List Nat) :
    InboxOf (rows.filter fun r => !ids.contains r.pk) (removeNotifications ids s) := by
  show s.notifications.filter _ = _
  rw [h, List.filter_map]
  rfl

/-- A deletion of no row leaves the inbox. -/
theorem InboxOf.kept {s : Store} (h : InboxOf rows s) :
    InboxOf rows (removeNotifications [] s) := by
  have hremoved := h.removed []
  have hall : (rows.filter fun r => !([] : List Nat).contains r.pk) = rows :=
    List.filter_eq_self.mpr fun _ _ => rfl
  rw [hall] at hremoved
  exact hremoved

/-- **STORE**: what others commit is a removal and inserts of notifications. -/
theorem InboxOf.others {s : Store} (h : InboxOf rows s) (m : Moment) :
    InboxOf (m.others rows) (addNotifications (m.arrivals.map (·.toNotification))
      (removeNotifications m.deletions s)) := by
  have hread : ∀ r : InboxRow, (m.markRead r).toNotification = r.toNotification := fun r => by
    rw [Moment.markRead]
    split <;> rfl
  have hleft : s.notifications.filter (fun n => !m.deletions.contains n.pk) = _ :=
    h.removed m.deletions
  show s.notifications.filter _ ++ _ = List.map _ _
  rw [hleft, Moment.others, List.map_append, List.map_map]
  exact congrArg (· ++ _) (List.map_congr_left fun r _ => (hread r).symm)

/-! ## One check -/

/-- An expired id is that of a row that has expired. -/
theorem mem_expiredIds {now : Time} {l : List InboxRow} {k : Nat} (h : k ∈ expiredIds now l) :
    ∃ r ∈ l, r.pk = k ∧ r.expiresAt < now := by
  have hsorted := (List.perm_insertionSort (· ≤ ·) _).subset (List.mem_of_mem_take h)
  obtain ⟨r, hr, hpk⟩ := List.mem_map.mp hsorted
  obtain ⟨hr, hexpired⟩ := List.mem_filter.mp hr
  exact ⟨r, hr, hpk, of_decide_eq_true hexpired⟩

/-- A check that finds no ids has seen no expired row. -/
theorem not_expired_of_empty {now : Time} {l : List InboxRow} (h : expiredIds now l = [])
    (hr : r ∈ l) : now ≤ r.expiresAt := by
  by_contra hlt
  have hsorted : ((l.filter fun r => r.expiresAt < now).map (·.pk)).insertionSort (· ≤ ·) = [] := by
    rcases List.take_eq_nil_iff.mp h with hzero | hnil
    · exact nomatch hzero
    · exact hnil
  have hmem : r.pk ∈ ((l.filter fun r => r.expiresAt < now).map (·.pk)).insertionSort (· ≤ ·) :=
    (List.perm_insertionSort (· ≤ ·) _).symm.subset (List.mem_map_of_mem
      (List.mem_filter.mpr ⟨hr, decide_eq_true (Nat.lt_of_not_le hlt)⟩))
  rw [hsorted] at hmem
  exact nomatch hmem

/-- A snapshot shows the rows that are not gone. -/
theorem mem_visible {l : List InboxRow} : r ∈ p.visible l ↔ r ∈ l ∧ r.pk ∉ p.gone := by
  rw [Purging.visible, List.mem_filter, Bool.not_eq_true', ← Bool.not_eq_true,
    List.contains_iff_mem]

/-! ## The loop -/

/-- What is known of the loop right after the statement with the number. -/
structure SoundPurge (rows : List InboxRow) (moments : Nat → Moment) (n : Nat) (p : Purging) :
    Prop where
  count : p.deleted = (rowsAt rows moments n).countP fun r => p.gone.contains r.pk
  chosen : ∀ k ∈ p.gone, ∃ batch ∈ p.batches, k ∈ batch.2
  expired : ∀ batch ∈ p.batches, batch.1 < n ∧ ∀ k ∈ batch.2,
    ∃ r ∈ rowsAt rows moments batch.1, r.pk = k ∧ r.expiresAt < (moments batch.1).now

/-- Others neither add to what was deleted nor take from it. -/
theorem SoundPurge.next {ended : Nat} (h : SoundPurge rows moments n p)
    (hkeys : PrimaryKeys rows moments) (hlocked : RowsLocked moments p.batches ended)
    (hle : n + 1 ≤ ended) : SoundPurge rows moments (n + 1) p := by
  refine ⟨?_, h.chosen, fun batch hbatch => ?_⟩
  · -- the key of a deleted row is not used again
    have hnew : (moments (n + 1)).arrivals.countP (fun r => p.gone.contains r.pk) = 0 := by
      refine List.countP_eq_zero.mpr fun r hr hgone => ?_
      obtain ⟨batch, hbatch, hk⟩ := h.chosen r.pk (List.contains_iff_mem.mp hgone)
      obtain ⟨hlt, hall⟩ := h.expired batch hbatch
      obtain ⟨y, hy, hpk, -⟩ := hall r.pk hk
      exact hkeys.fresh batch.1 (n + 1) (Nat.lt_succ_of_lt hlt) y hy r hr hpk.symm
    rw [rowsAt, Moment.others, List.countP_append, List.countP_map, hnew, Nat.add_zero, h.count,
      List.countP_filter]
    refine List.countP_congr fun r _ => ?_
    show _ ↔ (p.gone.contains ((moments (n + 1)).markRead r).pk && _) = true
    rw [markRead_pk, Bool.and_eq_true, Bool.not_eq_true', ← Bool.not_eq_true,
      List.contains_iff_mem, List.contains_iff_mem]
    refine ⟨fun hgone => ⟨hgone, ?_⟩, fun hboth => hboth.1⟩
    obtain ⟨batch, hbatch, hk⟩ := h.chosen r.pk hgone
    have hlt := (h.expired batch hbatch).1
    exact hlocked batch hbatch r.pk hk (n + 1) (by omega) hle
  · obtain ⟨hlt, hall⟩ := h.expired batch hbatch
    exact ⟨Nat.lt_succ_of_lt hlt, hall⟩

/-- The rows of two predicates, the second one after the first. -/
theorem countP_or (l : List InboxRow) (a b : InboxRow → Bool) :
    l.countP (fun r => a r || b r) = l.countP a + (l.filter fun r => !a r).countP b := by
  induction l with
  | nil => rfl
  | cons r l ih =>
      cases ha : a r with
      | true => simp [ha, ih, Nat.add_right_comm]
      | false => cases hb : b r <;> simp [ha, hb, ih, Nat.add_assoc]

/-- **BATCH**: a check, and the deletion of what it selected. -/
theorem SoundPurge.delete {ended : Nat} (h : SoundPurge rows moments n p)
    (hkeys : PrimaryKeys rows moments) (hlocked : RowsLocked moments p.batches ended)
    (hle : n + 1 ≤ ended) :
    SoundPurge rows moments (n + 1) (p.delete n (expiredIds (moments n).now
      (p.visible (rowsAt rows moments n))) (rowsAt rows moments (n + 1))) := by
  have hnext := h.next hkeys hlocked hle
  refine ⟨?_, fun k hk => ?_, fun batch hbatch => ?_⟩
  · show p.deleted + (p.visible (rowsAt rows moments (n + 1))).countP _ = _
    generalize expiredIds _ _ = ids
    rw [hnext.count, Purging.visible, ← countP_or]
    refine List.countP_congr fun r _ => ?_
    show _ ↔ (p.gone ++ _).contains r.pk = true
    rw [Bool.or_eq_true, List.contains_iff_mem, List.contains_iff_mem, List.contains_iff_mem,
      List.mem_append]
  · rcases List.mem_append.mp hk with hk | hk
    · obtain ⟨batch, hbatch, hmem⟩ := h.chosen k hk
      exact ⟨batch, List.mem_cons_of_mem _ hbatch, hmem⟩
    · exact ⟨_, List.mem_cons_self, hk⟩
  · rcases List.mem_cons.mp hbatch with rfl | hbatch
    · refine ⟨Nat.lt_succ_self n, fun k hk => ?_⟩
      obtain ⟨r, hr, hrow⟩ := mem_expiredIds hk
      exact ⟨r, (mem_visible.mp hr).1, hrow⟩
    · exact hnext.expired batch hbatch

/-- How far a loop came: up to its last check, or up to the statement that failed. -/
def LoopEnd (moments : Nat → Moment) (n : Nat) (p : Purging) : Except Nat (Purging × Nat) → Prop
  | .ok (p', m) => n ≤ m ∧ p.batches ⊆ p'.batches ∧
      ∀ k, n ≤ k → k ≤ m → (moments k).fails = false
  | .error m => n ≤ m ∧ (moments m).fails = true ∧
      ∀ k, n ≤ k → k < m → (moments k).fails = false

/-- Two statements that did not fail, before the rest. -/
theorem LoopEnd.after {check : Nat} {ids : List Nat} {deletedOf : List InboxRow}
    (hcheck : (moments n).fails = false) (hdelete : (moments (n + 1)).fails = false) :
    ∀ {out}, LoopEnd moments (n + 2) (p.delete check ids deletedOf) out → LoopEnd moments n p out
  | .ok _, ⟨hle, hsub, hnone⟩ => by
      refine ⟨by omega, fun b hb => hsub (List.mem_cons_of_mem _ hb), fun k hk hkm => ?_⟩
      obtain rfl | rfl | hk : k = n ∨ k = n + 1 ∨ n + 2 ≤ k := by omega
      · exact hcheck
      · exact hdelete
      · exact hnone k hk hkm
  | .error _, ⟨hle, hfails, hnone⟩ => by
      refine ⟨by omega, hfails, fun k hk hkm => ?_⟩
      obtain rfl | rfl | hk : k = n ∨ k = n + 1 ∨ n + 2 ≤ k := by omega
      · exact hcheck
      · exact hdelete
      · exact hnone k hk hkm

/-- The loop stops where a statement fails, and nowhere before. -/
theorem purgeLoop_end {fuel : Nat} {out : Except Nat (Purging × Nat)}
    (hloop : purgeLoop rows moments fuel n p = some out) : LoopEnd moments n p out := by
  induction fuel generalizing n p with
  | zero => exact nomatch hloop
  | succ fuel ih =>
      rw [purgeLoop] at hloop
      split at hloop
      · next hfails =>
          cases hloop
          exact ⟨Nat.le_refl n, hfails, fun k hk hlt => absurd hk (Nat.not_le_of_lt hlt)⟩
      · next hcheck =>
          have hcheck' := Bool.eq_false_of_not_eq_true hcheck
          dsimp only at hloop
          split at hloop
          · cases hloop
            refine ⟨Nat.le_refl n, List.Subset.refl _, fun k hk hle => ?_⟩
            rw [Nat.le_antisymm hle hk]
            exact hcheck'
          · split at hloop
            · next hfails =>
                cases hloop
                refine ⟨Nat.le_succ n, hfails, fun k hk hlt => ?_⟩
                rw [Nat.le_antisymm (Nat.le_of_lt_succ hlt) hk]
                exact hcheck'
            · next hdelete =>
                exact LoopEnd.after hcheck' (Bool.eq_false_of_not_eq_true hdelete) (ih hloop)

/-- **LOOP**: what is so when it has checked last. -/
theorem purgeLoop_ok (hkeys : PrimaryKeys rows moments) {fuel ended : Nat} {p' : Purging}
    (h : SoundPurge rows moments n p)
    (hloop : purgeLoop rows moments fuel n p = some (.ok (p', m)))
    (hlocked : RowsLocked moments p'.batches ended) (hended : m ≤ ended) :
    SoundPurge rows moments m p' ∧
      ∀ r ∈ rowsAt rows moments m, r.pk ∉ p'.gone → (moments m).now ≤ r.expiresAt := by
  induction fuel generalizing n p with
  | zero => exact nomatch hloop
  | succ fuel ih =>
      rw [purgeLoop] at hloop
      split at hloop
      · exact nomatch hloop
      · dsimp only at hloop
        split at hloop
        · next hempty =>
            obtain ⟨rfl, rfl⟩ := Prod.mk.inj (Except.ok.inj (Option.some.inj hloop))
            exact ⟨h, fun r hr hstays =>
              not_expired_of_empty (List.isEmpty_iff.mp hempty) (mem_visible.mpr ⟨hr, hstays⟩)⟩
        · split at hloop
          · exact nomatch hloop
          · -- the locks of the rest are those of this batch too
            obtain ⟨hle, hsub, -⟩ := purgeLoop_end hloop
            have hlocks : ∀ {q : Purging}, q.batches ⊆ p'.batches →
                RowsLocked moments q.batches ended := fun hq batch hbatch =>
              hlocked batch (hq hbatch)
            have hfirst := h.delete hkeys
              (hlocks fun b hb => hsub (List.mem_cons_of_mem _ hb)) (by omega)
            exact ih (hfirst.next hkeys (hlocks hsub) (by omega)) hloop

/-! ## Its end -/

/-- Where none arrives, there are no more rows to see than before. -/
theorem visible_others {m : Moment} (harrivals : m.arrivals = []) (l : List InboxRow) :
    (p.visible (m.others l)).length ≤ (p.visible l).length := by
  have hvisible : p.visible (m.others l) =
      ((p.visible l).filter fun r => !m.deletions.contains r.pk).map m.markRead := by
    rw [Moment.others, harrivals, List.append_nil, Purging.visible, List.filter_map,
      Purging.visible, List.filter_filter, List.filter_filter]
    refine congrArg (List.map m.markRead) (List.filter_congr fun r _ => ?_)
    show (!p.gone.contains (m.markRead r).pk && _) = _
    rw [markRead_pk, Bool.and_comm]
  rw [hvisible, List.length_map]
  exact List.length_filter_le _ _

/-- A deletion leaves fewer rows to see. -/
theorem delete_visible_lt {l : List InboxRow} {ids : List Nat} (check : Nat)
    (deletedOf : List InboxRow) (hr : r ∈ p.visible l) (hid : r.pk ∈ ids) :
    ((p.delete check ids deletedOf).visible l).length < (p.visible l).length := by
  have hfilter : (p.delete check ids deletedOf).visible l =
      (p.visible l).filter fun r => !ids.contains r.pk := by
    rw [Purging.visible, Purging.visible, List.filter_filter]
    refine List.filter_congr fun r _ => ?_
    show (!(p.gone ++ ids).contains r.pk) = _
    rw [List.contains_append, Bool.not_or, Bool.and_comm]
  rw [hfilter]
  refine List.length_filter_lt_length_iff_exists.mpr ⟨r, hr, ?_⟩
  simpa using hid

/-- A check that selects nothing, or raises, is the last one. -/
theorem purgeLoop_check
    (h : expiredIds (moments n).now (p.visible (rowsAt rows moments n)) ≠ [] →
      ∃ fuel, (purgeLoop rows moments fuel (n + 2) (p.delete n (expiredIds (moments n).now
        (p.visible (rowsAt rows moments n))) (rowsAt rows moments (n + 1)))).isSome) :
    ∃ fuel, (purgeLoop rows moments fuel n p).isSome := by
  by_cases hempty : expiredIds (moments n).now (p.visible (rowsAt rows moments n)) = []
  · refine ⟨1, ?_⟩
    rw [purgeLoop]
    dsimp only
    rw [hempty, List.isEmpty_nil, if_pos rfl]
    split <;> rfl
  · obtain ⟨fuel, hfuel⟩ := h hempty
    refine ⟨fuel + 1, ?_⟩
    rw [purgeLoop]
    dsimp only
    split
    · rfl
    · rw [if_neg (mt List.isEmpty_iff.mp hempty)]
      split
      · rfl
      · exact hfuel

/-- Once no more rows arrive, each batch leaves fewer to select. -/
theorem purgeLoop_quiet {size : Nat} (hquiet : ∀ k, n ≤ k → (moments k).arrivals = [])
    (hsize : (p.visible (rowsAt rows moments n)).length ≤ size) :
    ∃ fuel, (purgeLoop rows moments fuel n p).isSome := by
  induction size generalizing n p with
  | zero =>
      refine purgeLoop_check fun hsome => absurd ?_ hsome
      rw [List.length_eq_zero_iff.mp (Nat.le_zero.mp hsize)]
      rfl
  | succ size ih =>
      refine purgeLoop_check fun hsome => ih (fun k hk => hquiet k (by omega)) ?_
      obtain ⟨k, hk⟩ := List.exists_mem_of_ne_nil _ hsome
      obtain ⟨r, hr, rfl, -⟩ := mem_expiredIds hk
      have hfewer := delete_visible_lt n (rowsAt rows moments (n + 1)) hr hk
      show ((p.delete n _ _).visible ((moments (n + 2)).others
        ((moments (n + 1)).others (rowsAt rows moments n)))).length ≤ size
      have hafter := visible_others (p := p.delete n (expiredIds (moments n).now
        (p.visible (rowsAt rows moments n))) (rowsAt rows moments (n + 1)))
        (hquiet (n + 2) (by omega)) ((moments (n + 1)).others (rowsAt rows moments n))
      have hbefore := visible_others (p := p.delete n (expiredIds (moments n).now
        (p.visible (rowsAt rows moments n))) (rowsAt rows moments (n + 1)))
        (hquiet (n + 1) (by omega)) (rowsAt rows moments n)
      omega

/-- **TERMINATION**: the loop ends once no more rows arrive. -/
theorem purgeLoop_terminates {last : Nat} (hquiet : ∀ k, last ≤ k → (moments k).arrivals = []) :
    ∃ fuel, (purgeLoop rows moments fuel n p).isSome := by
  induction hleft : last - n using Nat.strong_induction_on generalizing n p with
  | _ left ih =>
      by_cases hle : last ≤ n
      · exact purgeLoop_quiet (fun k hk => hquiet k (Nat.le_trans hle hk)) (Nat.le_refl _)
      · exact purgeLoop_check fun _ => ih (last - (n + 2)) (by omega) rfl

/-! ## The purge -/

/-- What a purge did. -/
structure PurgeExact (rows : List InboxRow) (state : Option PurgeState) (moments : Nat → Moment)
    (lockFree : Bool) (run : PurgeRun) : Prop where
  /-- It raises exactly when its last statement fails; none before did. -/
  raised : run.result = none ↔ (moments run.ended).fails = true
  earlier : ∀ k < run.ended, (moments k).fails = false
  /-- Without the lock it does not purge, -/
  locked : ∀ count, run.result = some ⟨count, true⟩ → lockFree = true
  /-- only without the lock it says so, -/
  unlocked : ∀ count, run.result = some ⟨count, false⟩ → lockFree = false ∧ count = 0
  /-- and with the lock it purges, unless a statement fails. -/
  purges : lockFree = true → (∀ k ≤ run.ended, (moments k).fails = false) →
    ∃ count, run.result = some ⟨count, true⟩
  /-- Without the lock, or when it raised, nothing changed. -/
  undone : (∀ count, run.result ≠ some ⟨count, true⟩) →
    run.rows = rowsAt rows moments run.ended ∧ run.state = state
  /-- It changed no row that it left. -/
  kept : run.rows.Sublist (rowsAt rows moments run.ended)
  /-- In the store it is a removal of notifications. -/
  store : ∀ s, InboxOf (rowsAt rows moments run.ended) s →
    ∃ ids, InboxOf run.rows (removeNotifications ids s)
  /-- A row that it deleted was selected at a check that found it expired, when it was in no
      inbox and could not be marked read. -/
  selected : ∀ x ∈ rowsAt rows moments run.ended, x ∉ run.rows →
    ∃ check ids, (check, ids) ∈ run.batches ∧ x.pk ∈ ids ∧
      x.expiresAt < (moments check).now ∧ ∀ user,
        (∀ r ∈ notificationsForUser (moments check).now user (rowsAt rows moments check),
          r.pk ≠ x.pk) ∧
        markNotificationRead (moments check).now x.pk user (rowsAt rows moments check) = none
  /-- Of the rows that were there at its last check, none that had expired is left. -/
  complete : ∀ count, run.result = some ⟨count, true⟩ →
    ∀ r ∈ rowsAt rows moments run.lastCheck, r.expiresAt < (moments run.lastCheck).now →
      ∀ x ∈ run.rows, x.pk ≠ r.pk
  /-- The count that it returned, and the one that it wrote down, are of the rows deleted. -/
  counted : ∀ count, run.result = some ⟨count, true⟩ →
    count + run.rows.length = (rowsAt rows moments run.ended).length ∧
      run.state = some ⟨(moments (run.lastCheck + 1)).now, count⟩

/-- A purge that raised, at its last statement. -/
theorem purgeRaised_exact {lockFree : Bool} (hfails : (moments n).fails = true)
    (hearlier : ∀ k < n, (moments k).fails = false) :
    PurgeExact rows state moments lockFree (purgeUndone rows state moments none n) where
  raised := iff_of_true rfl hfails
  earlier := hearlier
  locked _ hresult := nomatch hresult
  unlocked _ hresult := nomatch hresult
  purges _ hnone := by
    rw [hnone n (Nat.le_refl n)] at hfails
    exact nomatch hfails
  undone _ := ⟨rfl, rfl⟩
  kept := List.Sublist.refl _
  store _ hs := ⟨[], hs.kept⟩
  selected _ hx hgone := absurd hx hgone
  complete _ hresult := nomatch hresult
  counted _ hresult := nomatch hresult

/-- A purge that did not get the lock. -/
theorem purgeRefused_exact (hfails : (moments 0).fails = false) :
    PurgeExact rows state moments false
      (purgeUndone rows state moments (some ⟨0, false⟩) 0) where
  raised := iff_of_false (fun h => nomatch h) fun h => by
    rw [show (moments 0).fails = true from h] at hfails
    exact nomatch hfails
  earlier _ hlt := absurd hlt (Nat.not_lt_zero _)
  locked _ hresult := nomatch hresult
  unlocked _ hresult := by
    cases hresult
    exact ⟨rfl, rfl⟩
  purges hfree := nomatch hfree
  undone _ := ⟨rfl, rfl⟩
  kept := List.Sublist.refl _
  store _ hs := ⟨[], hs.kept⟩
  selected _ hx hgone := absurd hx hgone
  complete _ hresult := nomatch hresult
  counted _ hresult := nomatch hresult

/-- What has expired is accepted by neither of the two. -/
theorem not_accepted (hkeys : PrimaryKeys rows moments) {k : Nat} (hr : r ∈ rowsAt rows moments k)
    (hexpired : r.expiresAt < (moments k).now) (user : Nat) :
    (∀ y ∈ notificationsForUser (moments k).now user (rowsAt rows moments k), y.pk ≠ r.pk) ∧
      markNotificationRead (moments k).now r.pk user (rowsAt rows moments k) = none := by
  have hsame : ∀ y ∈ rowsAt rows moments k, y.pk = r.pk → ¬ (moments k).now ≤ y.expiresAt := by
    intro y hy hpk hle
    rw [hkeys.expiresAt hr hy (Nat.le_refl k) hpk] at hle
    exact absurd hexpired (Nat.not_lt_of_le hle)
  constructor
  · intro y hy hpk
    obtain ⟨hy, hinbox⟩ := List.mem_filter.mp hy
    exact hsame y hy hpk (of_decide_eq_true ((Bool.and_eq_true _ _).mp hinbox).2)
  · refine List.find?_eq_none.mpr fun y hy hfound => ?_
    obtain ⟨hboth, hle⟩ := (Bool.and_eq_true _ _).mp hfound
    exact hsame y hy (beq_iff_eq.mp ((Bool.and_eq_true _ _).mp hboth).1) (of_decide_eq_true hle)

/-- A purge that went through. -/
theorem purged_exact (hkeys : PrimaryKeys rows moments) (h : SoundPurge rows moments n p)
    (hnone : ∀ k ≤ n + 2, (moments k).fails = false)
    (hlocked : RowsLocked moments p.batches (n + 2))
    (hlast : ∀ r ∈ rowsAt rows moments n, r.pk ∉ p.gone → (moments n).now ≤ r.expiresAt) :
    PurgeExact rows state moments true {
      result := some ⟨p.deleted, true⟩
      ended := n + 2
      rows := p.visible (rowsAt rows moments (n + 2))
      state := some ⟨(moments (n + 1)).now, p.deleted⟩
      batches := p.batches
      lastCheck := n } where
  raised := iff_of_false (fun h => nomatch h) fun h => by
    rw [hnone (n + 2) (Nat.le_refl _)] at h
    exact nomatch h
  earlier k hlt := hnone k (Nat.le_of_lt hlt)
  locked _ _ := rfl
  unlocked _ hresult := nomatch hresult
  purges _ _ := ⟨p.deleted, rfl⟩
  undone hresult := absurd rfl (hresult p.deleted)
  kept := List.filter_sublist
  store _ hs := ⟨p.gone, hs.removed p.gone⟩
  selected x hx hgone := by
    have hpk : x.pk ∈ p.gone := by
      by_contra hnot
      exact hgone (mem_visible.mpr ⟨hx, hnot⟩)
    obtain ⟨⟨check, ids⟩, hbatch, hid⟩ := h.chosen x.pk hpk
    obtain ⟨hle, hall⟩ := h.expired _ hbatch
    obtain ⟨r, hr, hrpk, hexpired⟩ := hall x.pk hid
    have hsame := hkeys.expiresAt hr hx (Nat.le_trans (Nat.le_of_lt hle) (Nat.le_add_right n 2))
      hrpk.symm
    refine ⟨check, ids, hbatch, hid, hsame ▸ hexpired, fun user => ?_⟩
    rw [← hrpk]
    exact not_accepted hkeys hr hexpired user
  complete _ _ r hr hexpired x hx hpk := by
    refine (mem_visible.mp hx).2 (hpk ▸ ?_)
    by_contra hnot
    exact absurd (hlast r hr hnot) (Nat.not_le_of_lt hexpired)
  counted count hcount := by
    cases hcount
    have hended := ((h.next hkeys hlocked (Nat.le_succ _)).next hkeys hlocked (Nat.le_refl _)).count
    refine ⟨?_, rfl⟩
    show p.deleted + (p.visible (rowsAt rows moments (n + 2))).length =
      (rowsAt rows moments (n + 2)).length
    rw [hended, Purging.visible, ← List.countP_eq_length_filter]
    rw [List.length_eq_countP_add_countP (fun r => p.gone.contains r.pk)
      (l := rowsAt rows moments (n + 2))]
    refine congrArg _ (List.countP_congr fun r _ => ?_)
    simp

/-- Before its first check it has deleted nothing. -/
theorem soundPurge_start : SoundPurge rows moments n {} where
  count := by
    refine (List.countP_eq_zero.mpr fun r _ hgone => ?_).symm
    exact nomatch hgone
  chosen _ hk := nomatch hk
  expired _ hbatch := nomatch hbatch

/-- **PURGE**: it ends, and what it deletes is exactly what its checks found expired. -/
theorem purge_exact (hkeys : PrimaryKeys rows moments) (lockFree : Bool) :
    ((∃ last, ∀ k, last ≤ k → (moments k).arrivals = []) →
      ∃ fuel, (purgeExpiredNotifications fuel rows state moments lockFree).isSome) ∧
    ∀ fuel run, purgeExpiredNotifications fuel rows state moments lockFree = some run →
      RowsLocked moments run.batches run.ended → PurgeExact rows state moments lockFree run := by
  constructor
  · rintro ⟨last, hquiet⟩
    have hends : ∃ fuel, (purgeLoop rows moments fuel 1 {}).isSome := purgeLoop_terminates hquiet
    obtain ⟨fuel, hfuel⟩ := hends
    refine ⟨fuel, ?_⟩
    rw [purgeExpiredNotifications]
    split
    · rfl
    · split
      · rfl
      · rw [Option.isSome_map]
        exact hfuel
  · intro fuel run hrun
    rw [purgeExpiredNotifications] at hrun
    split at hrun
    · next hfails =>
        cases hrun
        exact fun _ => purgeRaised_exact hfails fun k hk => absurd hk (Nat.not_lt_zero k)
    · next hstart =>
        have hstart' := Bool.eq_false_of_not_eq_true hstart
        cases lockFree with
        | false =>
            cases hrun
            exact fun _ => purgeRefused_exact hstart'
        | true =>
            obtain ⟨outcome, hloop, hrun⟩ := Option.map_eq_some_iff.mp hrun
            subst hrun
            have hend := purgeLoop_end hloop
            cases outcome with
            | error k =>
                obtain ⟨-, hfails, hnone⟩ := hend
                refine fun _ => purgeRaised_exact hfails fun j hj => ?_
                -- statement 0 is that of the lock; the loop counts from 1
                rcases Nat.eq_zero_or_pos j with rfl | hpos
                · exact hstart'
                · exact hnone j hpos hj
            | ok done =>
                obtain ⟨p, k⟩ := done
                obtain ⟨-, -, hnone⟩ := hend
                have hloopNone : ∀ j < k + 1, (moments j).fails = false := fun j hj => by
                  rcases Nat.eq_zero_or_pos j with rfl | hpos
                  · exact hstart'
                  · exact hnone j hpos (Nat.le_of_lt_succ hj)
                dsimp only
                split
                · next hfails => exact fun _ => purgeRaised_exact hfails hloopNone
                · next hwrite =>
                    have hwriteNone : ∀ j < k + 2, (moments j).fails = false := fun j hj => by
                      rcases Nat.lt_succ_iff_lt_or_eq.mp hj with hlt | rfl
                      · exact hloopNone j hlt
                      · exact Bool.eq_false_of_not_eq_true hwrite
                    split
                    · next hfails => exact fun _ => purgeRaised_exact hfails hwriteNone
                    · next hcommit =>
                        intro hlocked
                        -- every statement succeeded, the commit too: only now something is
                        -- deleted
                        obtain ⟨hsound, hlast⟩ := purgeLoop_ok hkeys soundPurge_start hloop
                          hlocked (Nat.le_add_right k 2)
                        refine purged_exact hkeys hsound (fun j hj => ?_) hlocked hlast
                        rcases Nat.le_iff_lt_or_eq.mp hj with hlt | rfl
                        · exact hwriteNone j hlt
                        · exact Bool.eq_false_of_not_eq_true hcommit

/-- A row of an inbox. -/
def noticeRow (pk recipient : Nat) (eventKey : String) (expiresAt : Time) : InboxRow :=
  { pk := pk, recipient := recipient, eventKey := eventKey, kind := "CHAT_MESSAGE",
    payload := [], expiresAt := expiresAt }

/-- The inbox of two members. -/
def busyInbox : List InboxRow :=
  [noticeRow 1 7 "chat:1" 3, noticeRow 2 7 "chat:2" 100, noticeRow 4 9 "chat:1" 100]

/-- Others add a notification while the purge runs, read one, and one of them withdraws. -/
def busyMoments (n : Nat) : Moment :=
  { now := 5 + n, arrivals := if n = 2 then [noticeRow 5 8 "chat:3" 200] else [], reads := [2],
    deletions := if n = 3 then [4] else [] }

/-- From the third statement on the rows have their keys. -/
theorem busyRows_keys (n : Nat) :
    (rowsAt busyInbox busyMoments (n + 3)).map (·.pk) = [1, 2, 5] := by
  induction n with
  | zero => decide
  | succ n ih =>
      have hquiet : (busyMoments (n + 1 + 3)).arrivals = [] := by simp [busyMoments]
      have hnone : (busyMoments (n + 1 + 3)).deletions = [] := by simp [busyMoments]
      have hall : ∀ l : List InboxRow, (l.filter fun r => !([] : List Nat).contains r.pk) = l :=
        fun l => List.filter_eq_self.mpr fun _ _ => rfl
      rw [rowsAt, Moment.others, hquiet, hnone, hall, List.append_nil, List.map_map, ← ih]
      exact List.map_congr_left fun r _ => markRead_pk _ r

theorem busyMoments_keys : PrimaryKeys busyInbox busyMoments where
  unique n := by
    match n with
    | 0 => decide
    | 1 => decide
    | 2 => decide
    | n + 3 =>
        rw [busyRows_keys n]
        decide
  fresh n k hlt r hr x hx := by
    by_cases hk : k = 2
    · subst hk
      have hstart : ∀ r ∈ rowsAt busyInbox busyMoments 0, ∀ x ∈ (busyMoments 2).arrivals,
          x.pk ≠ r.pk := by decide
      have hnext : ∀ r ∈ rowsAt busyInbox busyMoments 1, ∀ x ∈ (busyMoments 2).arrivals,
          x.pk ≠ r.pk := by decide
      obtain rfl | rfl : n = 0 ∨ n = 1 := by omega
      · exact hstart r hr x hx
      · exact hnext r hr x hx
    · have hnone : (busyMoments k).arrivals = [] := by simp [busyMoments, hk]
      rw [hnone] at hx
      exact absurd hx List.not_mem_nil

theorem busyMoments_deletions {j k : Nat} (h : k ∈ (busyMoments j).deletions) : k = 4 := by
  by_cases hj : j = 3
  · simpa [busyMoments, hj] using h
  · simp [busyMoments, hj] at h

/-- One row expired and one is gone with its member; the others, and the one that arrived,
    stay. -/
theorem purge_exact_busy :
    ∃ run, purgeExpiredNotifications 2 busyInbox none busyMoments true = some run ∧
      run.result = some ⟨1, true⟩ ∧ run.rows.map (·.pk) = [2, 5] ∧
      PurgeExact busyInbox none busyMoments true run := by
  have hends : ∃ run, purgeExpiredNotifications 2 busyInbox none busyMoments true = some run ∧
      run.result = some ⟨1, true⟩ ∧ run.rows.map (·.pk) = [2, 5] ∧
      ∀ batch ∈ run.batches, ∀ k ∈ batch.2, k = 1 :=
    ⟨_, rfl, by decide, by decide, by decide⟩
  obtain ⟨run, hrun, hresult, hrows, hids⟩ := hends
  refine ⟨run, hrun, hresult, hrows, (purge_exact busyMoments_keys true).2 2 run hrun ?_⟩
  intro batch hbatch k hk j _ _ hdeleted
  rw [hids batch hbatch k hk] at hdeleted
  exact absurd (busyMoments_deletions hdeleted) (by decide)

end Market
