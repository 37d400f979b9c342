import Marketplace.ExactlyOnce
import Marketplace.ModerationSpecs
import Marketplace.OutboxRuns

/-! # Repeated withdrawals in every run

    A repeated withdrawal answers with the task of the user's current epoch.  As long as
    nobody bumps the epoch of a withdrawn user, the row of a withdrawn user stays as it
    is, every task is the one of a withdrawn user and carries that epoch, and so a
    repeated withdrawal finds its task and changes nothing.  The revocation of a scope
    bumps the epoch of its holder without a look at the withdrawal. -/

namespace Market

open TxnProgram TxnInterleaving TxnLogic TxnProtection TxnSoundness TxnBody TxnFrames
  TxnInvariants TxnSchedule

variable {p : Platform} {Γ : Ctx Store Lock Exn Obs} {w : World Store Lock Obs}
  {s s' s'' : Store}

/-! ## The tasks of withdrawn users -/

/-- Every task is the one task of a withdrawn user, and carries the epoch of the row. -/
structure ReplayInv (s : Store) : Prop where
  users : UserKeys s
  inactive : ∀ u ∈ s.users, u.withdrawnAt.isSome = true → u.isActive = false
  owner : ∀ t ∈ s.revocationTasks, ∃ u ∈ s.users, u.pk = t.user ∧
    u.withdrawnAt.isSome = true ∧ u.authEpoch = t.authEpoch
  once : (s.revocationTasks.map (·.user)).Nodup

instance (s : Store) : Decidable (ReplayInv s) :=
  decidable_of_iff (UserKeys s ∧
    (∀ u ∈ s.users, u.withdrawnAt.isSome = true → u.isActive = false) ∧
    (∀ t ∈ s.revocationTasks, ∃ u ∈ s.users, u.pk = t.user ∧
      u.withdrawnAt.isSome = true ∧ u.authEpoch = t.authEpoch) ∧
    (s.revocationTasks.map (·.user)).Nodup)
    ⟨fun ⟨h1, h2, h3, h4⟩ => ⟨h1, h2, h3, h4⟩,
      fun h => ⟨h.users, h.inactive, h.owner, h.once⟩⟩

/-- A user has one task at most. -/
theorem ReplayInv.one (h : ReplayInv s) (user : Nat) :
    (s.revocationTasks.filter (·.user == user)).length ≤ 1 := by
  have hfilter : ((s.revocationTasks.filter (·.user == user)).map (·.user)).Nodup :=
    h.once.sublist (List.filter_sublist.map _)
  cases hl : s.revocationTasks.filter (·.user == user) with
  | nil => exact Nat.zero_le 1
  | cons t l =>
      cases l with
      | nil => exact Nat.le_refl 1
      | cons t' l =>
          have huser : ∀ x ∈ t :: t' :: l, x.user = user := by
            intro x hx
            rw [← hl] at hx
            exact beq_iff_eq.mp (List.mem_filter.mp hx).2
          rw [hl, List.map_cons, List.map_cons, List.nodup_cons] at hfilter
          refine absurd ?_ hfilter.1
          rw [huser t List.mem_cons_self,
            huser t' (List.mem_cons_of_mem _ List.mem_cons_self)]
          exact List.mem_cons_self

/-- What a commit may do: the rows of withdrawn users stay. -/
structure ReplayStep (s s' : Store) : Prop where
  keys : s'.users.map (·.pk) = s.users.map (·.pk)
  inv : ReplayInv s → ReplayInv s'
  stays : ReplayInv s → ∀ u ∈ s.users, u.withdrawnAt.isSome = true → u ∈ s'.users

theorem ReplayStep.refl (s : Store) : ReplayStep s s := ⟨rfl, id, fun _ _ hu _ => hu⟩

/-- Steps compose. -/
theorem replayStep_composes : Composes ReplayStep where
  refl := ReplayStep.refl
  trans _ _ _ h h' := ⟨h'.keys.trans h.keys, fun hi => h'.inv (h.inv hi),
    fun hi u hu hw => h'.stays (h.inv hi) u (h.stays hi u hu hw) hw⟩

/-- Users change one by one, except the withdrawn ones, and tasks are added for withdrawn
    users without one. -/
theorem replayStep_of {g : User → User} (new : List RevocationTask)
    (husers : s'.users = s.users.map g) (hpk : ∀ u, (g u).pk = u.pk)
    (htasks : s'.revocationTasks.map RevocationTask.identity =
      (s.revocationTasks ++ new).map RevocationTask.identity)
    (hstays : ReplayInv s → ∀ u ∈ s.users, u.withdrawnAt.isSome = true → g u = u)
    (hinactive : ReplayInv s → ∀ u ∈ s.users, (g u).withdrawnAt.isSome = true →
      (g u).isActive = false)
    (hnew : ReplayInv s → ∀ t ∈ new, (∃ u ∈ s.users, (g u).pk = t.user ∧
      (g u).withdrawnAt.isSome = true ∧ (g u).authEpoch = t.authEpoch) ∧
      ∀ x ∈ s.revocationTasks, x.user ≠ t.user)
    (honce : (new.map (·.user)).Nodup) : ReplayStep s s' := by
  have hkeys : s'.users.map (·.pk) = s.users.map (·.pk) := by
    rw [husers, List.map_map]
    exact List.map_congr_left fun u _ => hpk u
  have hstay : ReplayInv s → ∀ u ∈ s.users, u.withdrawnAt.isSome = true → u ∈ s'.users := by
    intro hi u hu hw
    rw [husers]
    exact List.mem_map.mpr ⟨u, hu, hstays hi u hu hw⟩
  refine ⟨hkeys, fun hi => ⟨?_, fun u hu hw => ?_, fun t ht => ?_, ?_⟩, hstay⟩
  · rw [UserKeys, hkeys]
    exact hi.users
  · rw [husers] at hu
    obtain ⟨v, hv, rfl⟩ := List.mem_map.mp hu
    exact hinactive hi v hv hw
  · -- the same task as before, or a new one
    have hmem : t.identity ∈ (s.revocationTasks ++ new).map RevocationTask.identity := by
      rw [← htasks]
      exact List.mem_map_of_mem ht
    obtain ⟨x, hx, hid⟩ := List.mem_map.mp hmem
    have huser : x.user = t.user := congrArg (fun i => i.2.1) hid
    have hepoch : x.authEpoch = t.authEpoch := congrArg (fun i => i.2.2.2) hid
    rw [← huser, ← hepoch]
    rcases List.mem_append.mp hx with hx | hx
    · obtain ⟨u, hu, hrest⟩ := hi.owner x hx
      exact ⟨u, hstay hi u hu hrest.2.1, hrest⟩
    · obtain ⟨⟨u, hu, hrest⟩, -⟩ := hnew hi x hx
      refine ⟨g u, ?_, hrest⟩
      rw [husers]
      exact List.mem_map_of_mem hu
  · have hmap : s'.revocationTasks.map (·.user) = (s.revocationTasks ++ new).map (·.user) := by
      have h := congrArg (List.map fun i => i.2.1) htasks
      rw [List.map_map, List.map_map] at h
      exact h
    rw [hmap, List.map_append]
    refine List.nodup_append'.mpr ⟨hi.once, honce, ?_⟩
    intro n hn hn'
    obtain ⟨x, hx, rfl⟩ := List.mem_map.mp hn
    obtain ⟨t, ht, huser⟩ := List.mem_map.mp hn'
    exact (hnew hi t ht).2 x hx huser.symm

/-- Users stay, and tasks keep their identity. -/
theorem replayStep_of_same (husers : s'.users = s.users)
    (htasks : s'.revocationTasks.map RevocationTask.identity =
      s.revocationTasks.map RevocationTask.identity) : ReplayStep s s' :=
  replayStep_of (g := id) [] (by rw [husers, List.map_id]) (fun _ => rfl)
    (by rw [htasks, List.append_nil]) (fun _ _ _ _ => rfl) (fun hi => hi.inactive)
    (fun _ _ ht => nomatch ht) List.nodup_nil

/-- A bump of the epoch of a user that is not withdrawn. -/
theorem replayStep_bump {n : Nat} (husers : s'.users = (bumpAuthEpoch n s).users)
    (htasks : s'.revocationTasks = s.revocationTasks)
    (hactive : ReplayInv s → ∀ u ∈ s.users, u.pk = n → u.withdrawnAt = none) :
    ReplayStep s s' := by
  refine replayStep_of (g := fun u =>
    if u.pk = n then { u with authEpoch := u.authEpoch + 1 } else u) [] husers
    (fun u => ?_) ?_ (fun hi u hu hw => ?_) (fun hi u hu hw => ?_)
    (fun _ _ ht => nomatch ht) List.nodup_nil
  · split <;> rfl
  · rw [htasks, List.append_nil]
  · refine if_neg fun hpk => ?_
    rw [hactive hi u hu hpk] at hw
    exact nomatch hw
  · split
    · next hpk =>
        rw [if_pos hpk] at hw
        exact hi.inactive u hu hw
    · next hpk =>
        rw [if_neg hpk] at hw
        exact hi.inactive u hu hw

/-! ## The operations -/

/-- A task that was found or added for a user that is withdrawn now. -/
theorem TaskEnd.replayStep {user authEpoch : Nat} {task : RevocationTask} {created : Bool}
    {held : List Lock} {f : Store → Store} {g : User → User}
    (h : TaskEnd user authEpoch task created held s f) (husers : (f s).users = s.users.map g)
    (hpk : ∀ u, (g u).pk = u.pk)
    (hstays : ReplayInv s → ∀ u ∈ s.users, u.withdrawnAt.isSome = true → g u = u)
    (hinactive : ReplayInv s → ∀ u ∈ s.users, (g u).withdrawnAt.isSome = true →
      (g u).isActive = false)
    (hrow : ∃ u ∈ s.users, (g u).pk = user ∧ (g u).withdrawnAt.isSome = true ∧
      (g u).authEpoch = authEpoch)
    (hnone : ReplayInv s → Index.present (.revocationUserEpoch user authEpoch) s = false →
      ∀ x ∈ s.revocationTasks, x.user ≠ user) : ReplayStep s (f s) := by
  cases h with
  | found _ _ _ _ hf =>
      refine replayStep_of [] husers hpk ?_ hstays hinactive
        (fun _ _ ht => nomatch ht) List.nodup_nil
      rw [hf s, List.append_nil]
  | added _ huser hepoch _ _ _ hfree hf =>
      refine replayStep_of [task] husers hpk (by rw [hf s]) hstays hinactive
        (fun hi t ht => ?_) (List.nodup_singleton _)
      rw [List.mem_singleton.mp ht, huser, hepoch]
      exact ⟨hrow, hnone hi hfree.free⟩

/-- A withdrawal is a step, -/
theorem WithdrawalDone.replayStep {user : Nat} {r : WithdrawalResult}
    (h : WithdrawalDone Γ user r w) : ReplayStep w.db w.view := by
  cases h with
  | replayed _ h =>
      rw [view_of_id h.pend]
      exact ReplayStep.refl _
  | withdrawn u now scope favorites notifications _ h =>
      have hg : ∀ v : User, v.pk = u.pk → (if v.pk = u.pk then
          { v with isActive := false, withdrawnAt := some now,
                   authEpoch := u.authEpoch + 1, password := none } else v) =
          { v with isActive := false, withdrawnAt := some now,
                   authEpoch := u.authEpoch + 1, password := none } := fun v hv => if_pos hv
      refine h.task.replayStep (h.writes.users w.db) (fun v => ?_) (fun hi v hv hw => ?_)
        (fun hi v hv hw => ?_) ⟨u, h.row, ?_⟩ (fun hi _ x hx huser => ?_)
      · split <;> rfl
      · refine if_neg fun hpk => ?_
        rw [hi.users.eq hv h.row hpk, h.active] at hw
        exact nomatch hw
      · split
        · rfl
        · next hpk =>
            rw [if_neg hpk] at hw
            exact hi.inactive v hv hw
      · rw [hg u rfl]
        exact ⟨rfl, rfl, rfl⟩
      · -- a task would be the one of a withdrawn user
        obtain ⟨v, hv, hpk, hw, -⟩ := hi.owner x hx
        rw [hi.users.eq hv h.row (hpk.trans huser), h.active] at hw
        exact nomatch hw

/-- so is its preparation, -/
theorem Prepared.replayStep {user authEpoch : Nat} {r : RevocationPreparation}
    (h : Prepared user authEpoch r w) : ReplayStep w.db w.view := by
  obtain ⟨u, hu, hpk, hwithdrawn, hactive, hepoch⟩ := h.row
  have husers : w.view.users = w.db.users.map id := by
    rw [World.view, h.rest, List.map_id]
  refine h.task.replayStep husers (fun _ => rfl) (fun _ _ _ _ => rfl) (fun hi => hi.inactive)
    ⟨u, hu, hpk, hwithdrawn, hepoch⟩ (fun hi hfree x hx huser => ?_)
  -- a task of the user carries the epoch that nobody has a task of
  obtain ⟨v, hv, hpkv, -, hepochv⟩ := hi.owner x hx
  have hsame : v = u := hi.users.eq hv hu (hpkv.trans (huser.trans hpk.symm))
  simp only [Index.present, List.any_eq_false, Bool.and_eq_true, beq_iff_eq] at hfree
  refine hfree x hx ⟨huser, ?_⟩
  rw [← hepochv, hsame, hepoch]

/-- so is a claim, -/
theorem ClaimEnd.replayStep {task : Nat} {now : Time} {r : Claim} (h : ClaimEnd task now w r) :
    ReplayStep w.db w.view := by
  cases h with
  | answered done hp =>
      rw [view_of_id hp]
      exact ReplayStep.refl _
  | claimed t _ _ _ _ _ hp =>
      rw [World.view, hp]
      exact replayStep_of_same rfl (map_identity (updateTask_identity fun _ => rfl))

/-- so is the end of an attempt, -/
theorem AttemptEnd.replayStep {task attempt : Nat} {f : RevocationTask → RevocationTask}
    {t : RevocationTask} (h : AttemptEnd Γ task attempt f t w)
    (hf : ∀ t, (f t).identity = t.identity) : ReplayStep w.db w.view := by
  rw [World.view, h.pend]
  exact replayStep_of_same rfl (map_identity (updateTask_identity hf))

/-- and so is what touches neither users nor tasks. -/
theorem Untouched.replayStep (h : Untouched s s') : ReplayStep s s' :=
  replayStep_of_same h.users (by rw [h.tasks])

/-- Reports make only active users log in again. -/
theorem Moderated.replayStep {targetType : TargetType} {target : Nat} {held : List Lock}
    {f : Store → Store} (h : Moderated Γ targetType target held s f) : ReplayStep s (f s) := by
  cases h with
  | untouched h => exact (h s).replayStep
  | sanctioned n clock _ h =>
      exact replayStep_of_same (h s).users (by rw [(h s).tasks]; rfl)
  | reported n clock _ hactive h =>
      by_cases htype : targetType = .user
      · obtain ⟨u, hu, hpk, hact⟩ := hactive htype
        have hs := h s
        rw [bumpTarget, if_pos (beq_iff_eq.mpr htype)] at hs
        refine replayStep_bump (n := target) hs.users hs.tasks fun hi v hv hpkv => ?_
        rw [hi.users.eq hv hu (hpkv.trans hpk.symm)]
        cases hw : u.withdrawnAt with
        | none => rfl
        | some t =>
            have hinactive := hi.inactive u hu (by rw [hw]; rfl)
            rw [hact] at hinactive
            cases hinactive
      · have hs := h s
        rw [bumpTarget, if_neg fun hb => htype (beq_iff_eq.mp hb)] at hs
        exact replayStep_of_same hs.users (by rw [hs.tasks]; rfl)

/-! ## The condition -/

/-- A revoked scope finds its holder not withdrawn. -/
def BumpsActive (v : Obs) (_ : Time) (s : Store) : Prop :=
  match v with
  | .bumping user => ∀ u ∈ s.users, u.pk = user → u.withdrawnAt = none
  | _ => True

instance (v : Obs) (now : Time) (s : Store) : Decidable (BumpsActive v now s) :=
  match v with
  | .bumping user =>
      inferInstanceAs (Decidable (∀ u ∈ s.users, u.pk = user → u.withdrawnAt = none))
  | .sanctioning _ _ _ _ => isTrue trivial
  | .savingUser _ => isTrue trivial
  | .reserving _ _ _ _ => isTrue trivial
  | .listing _ => isTrue trivial
  | .ending _ _ => isTrue trivial
  | .allocating _ => isTrue trivial
  | .deciding _ => isTrue trivial
  | .paged _ _ _ => isTrue trivial
  | .editing _ => isTrue trivial
  | .savingFile _ => isTrue trivial
  | .deletingFile _ => isTrue trivial

/-- The context of sessions that leave withdrawn users alone. -/
def replayCtx (p : Platform) : Ctx Store Lock Exn Obs :=
  along (market p ⟨fun _ _ => True, fun _ _ _ => True⟩ BumpsActive fun _ _ _ => True) ReplayStep

theorem replayCtx_abides (p : Platform) : Abides p (replayCtx p) where
  lawful := along_lawful (market_lawful p ⟨fun _ => trivial, fun _ _ _ _ _ => trivial⟩ _ _)
    replayStep_composes
  rely _ _ _ h := h.1
  leave _ _ _ h := ⟨h, trivial⟩
  deferred := rfl

theorem replayCtx_fits {ι : Type} (p : Platform) :
    Fits (postgres fun _ _ => False) (fun _ : ι => replayCtx p) :=
  fits_along (market_fits p _ (fun _ => ⟨fun _ => trivial, fun _ _ _ _ _ => trivial⟩) _ _)
    replayStep_composes fun _ _ h => False.elim h

/-- A step may be committed. -/
theorem replayCtx_guar {held : List Lock} (hleave : (replayCtx p).leave held s s')
    (h : ReplayStep s s') : (replayCtx p).guar held s s' :=
  ⟨⟨hleave.1, hleave.2, trivial⟩, h⟩

/-- The holder of a scope that was not withdrawn under its lock is not withdrawn. -/
theorem ScopeEnd.replayStep {held : List Lock} {f : Store → Store}
    (h : ScopeEnd (replayCtx p) held s f) : ReplayStep s (f s) := by
  cases h with
  | untouched h => exact (h s).replayStep
  | bumped n _ hseen h =>
      obtain ⟨now, s1, hgiven, hrely, hstep⟩ := hseen
      refine replayStep_bump (h s).users (h s).tasks fun hi u hu hpk => ?_
      have hpks : u.pk ∈ s1.users.map (·.pk) := by
        rw [← hstep.keys]
        exact List.mem_map_of_mem hu
      obtain ⟨v, hv, hpkv⟩ := List.mem_map.mp hpks
      have hv' : v ∈ s.users := (hrely.2 _ (List.mem_singleton.mpr rfl)).1 v hv (hpkv.trans hpk)
      rw [hi.users.eq hu hv' hpkv.symm]
      exact hgiven v hv (hpkv.trans hpk)

/-- The worker may do what it does. -/
theorem replayCtx_rules (p : Platform) : WorkerRules (replayCtx p) fun _ => True where
  mark _ _ _ _ _ := trivial
  shown _ _ _ _ _ := trivial
  quiet w hleave husers htasks _ _ :=
    ⟨replayCtx_guar hleave (replayStep_of_same husers (by rw [htasks])), trivial⟩
  claim _ _ _ w hleave hp _ := ⟨replayCtx_guar hleave hp.replayStep, trivial⟩
  retry _ _ _ _ _ w hleave hp _ _ :=
    ⟨replayCtx_guar hleave (hp.replayStep fun _ => rfl), trivial⟩
  finish _ _ _ _ w hleave hp _ _ _ :=
    ⟨replayCtx_guar hleave (hp.replayStep fun _ => rfl), trivial⟩

/-- So may the moderation. -/
theorem replayCtx_moderated {targetType : TargetType} {target : Nat} {α : Type} {m : M α}
    (h : ∀ w : World Store Lock Obs, w.sess.pend = id → w.sess.frames ≠ [] →
      Body (replayCtx p) m w (fun _ w' =>
        Moderated (replayCtx p) targetType target w'.sess.held w'.db w'.sess.pend) anyError) :
    Top (replayCtx p) (atomic m) :=
  Top.atomicEnds (P := fun _ held s f => Moderated (replayCtx p) targetType target held s f)
    (replayCtx_abides p).lawful h
    (fun _ _ _ _ hm hn => hm.near (replayCtx_abides p) hn)
    fun _ _ _ _ hleave hm => replayCtx_guar hleave hm.replayStep

/-- **OPERATIONS**, each transaction a step. -/
theorem top_replay (op : RevocationOp) : Top (replayCtx p) (op.run p) := by
  have hA := replayCtx_abides p
  have haudit : ∀ a, Top (replayCtx p) (audit a) := top_audit fun m hm =>
    mayRun_of_frame hA.lawful (fun _ _ _ _ _ => trivial) (hA.permits _) untouched_composes
      (fun k hk _ _ hf s => untouched_licensed (by
        rw [List.mem_singleton.mp hk]
        decide) hf s)
      (fun _ _ _ hleave h => replayCtx_guar hleave h.replayStep) m hm
  refine top_revocationOp hA (replayCtx_rules p)
    (fun user r w hleave h => replayCtx_guar hleave h.replayStep)
    (fun user authEpoch r w hleave h _ => replayCtx_guar hleave h.replayStep)
    (fun reporter targetType target context reason => ?_) (fun targetType target => ?_)
    (fun actor grant reason version at' => ?_) op
  · exact top_submitReport (fun reason' => replayCtx_moderated fun w hpend hopen =>
      body_submitReport hA (fun _ _ _ _ _ _ _ => trivial) reporter targetType target context
        reason' hpend hopen) reason
  · exact replayCtx_moderated fun w hpend hopen =>
      body_evaluateThreshold hA (fun _ _ _ _ _ _ _ => trivial) targetType target hpend hopen
  · refine top_revokeScope (fun reason' => Top.atomicEnds (P := fun _ held s f =>
      ScopeEnd (replayCtx p) held s f) hA.lawful (fun w hpend hopen => ?_)
      (fun _ _ _ _ hm hn => hm.near hA.lawful hn)
      fun _ _ _ _ hleave hm => replayCtx_guar hleave hm.replayStep) haudit reason
    exact body_revokeScope hA (fun _ _ _ _ => trivial) actor grant reason' version at' hpend
      hopen

/-! ## A repeated withdrawal -/

/-- The task of a user that withdrew. -/
structure Registered (user : Nat) (task : RevocationTask) (s : Store) : Prop where
  owner : task.user = user
  withdrawn : ∃ u ∈ s.users, u.pk = user ∧ u.withdrawnAt.isSome = true
  kept : task.identity ∈ s.revocationTasks.map RevocationTask.identity

/-- A store in which the user withdrew and has this one task. -/
def Withdrew (user : Nat) (task : RevocationTask) (s : Store) : Prop :=
  ReplayInv s ∧ Registered user task s

/-- A user who has withdrawn has a task. -/
theorem WithdrawalDone.registered {user : Nat} {r : WithdrawalResult}
    (h : WithdrawalDone Γ user r w) : Registered user r.task w.view := by
  cases h with
  | replayed _ h =>
      obtain ⟨u, hu, hpk, hwithdrawn, howner, -⟩ := h.row
      rw [view_of_id h.pend]
      exact ⟨howner, ⟨u, hu, hpk, hwithdrawn⟩, h.task⟩
  | withdrawn u now scope favorites notifications hpk h =>
      have hrow : ∃ v ∈ w.view.users, v.pk = user ∧ v.withdrawnAt.isSome = true := by
        rw [World.view, h.writes.users w.db]
        refine ⟨_, List.mem_map_of_mem h.row, ?_⟩
        rw [if_pos rfl]
        exact ⟨hpk, rfl⟩
      cases h.task with
      | found _ howner _ hmem hf =>
          refine ⟨howner.trans hpk, hrow, ?_⟩
          rw [World.view, hf w.db]
          exact hmem
      | added _ howner _ _ _ _ _ hf =>
          refine ⟨howner.trans hpk, hrow, ?_⟩
          rw [World.view, hf w.db]
          exact List.mem_map_of_mem (List.mem_append_right _ (List.mem_singleton.mpr rfl))

/-- Who has withdrawn stays withdrawn, with the same task, -/
theorem Withdrew.step {user : Nat} {task : RevocationTask} (h : Withdrew user task s)
    (hkeeps : Keeps s s') (hstep : ReplayStep s s') : Withdrew user task s' := by
  obtain ⟨hi, hreg⟩ := h
  obtain ⟨u, hu, hpk, hwithdrawn⟩ := hreg.withdrawn
  exact ⟨hstep.inv hi, hreg.owner, ⟨u, hstep.stays hi u hu hwithdrawn, hpk, hwithdrawn⟩,
    hkeeps.tasks.subset hreg.kept⟩

/-- whatever others do. -/
theorem withdrew_steady (p : Platform) (user : Nat) (task : RevocationTask) :
    Steady (replayCtx p) (Withdrew user task) :=
  fun held _ _ h hs => hs.step ((replayCtx_abides p).rely held _ _ h).1 h.2

/-- The row of the user says so, and a task of its epoch is there. -/
theorem Withdrew.found {user : Nat} {task : RevocationTask} (h : Withdrew user task s) {u : User}
    (hu : u ∈ s.users) (hpk : u.pk = user) : u.withdrawnAt.isSome = true ∧
      (s.revocationTasks.find? fun t => t.user == u.pk && t.authEpoch == u.authEpoch).isSome =
        true := by
  obtain ⟨hi, howner, ⟨v, hv, hpkv, hwithdrawn⟩, hkept⟩ := h
  have hsame : v = u := hi.users.eq hv hu (hpkv.trans hpk.symm)
  refine ⟨hsame ▸ hwithdrawn, List.find?_isSome.mpr ?_⟩
  obtain ⟨t, ht, hid⟩ := List.mem_map.mp hkept
  have huser : t.user = user := (congrArg (fun i => i.2.1) hid).trans howner
  obtain ⟨x, hx, hpkx, -, hepoch⟩ := hi.owner t ht
  have hxu : x = u := hi.users.eq hx hu (hpkx.trans (huser.trans hpk.symm))
  rw [hxu] at hepoch
  refine ⟨t, ht, ?_⟩
  rw [Bool.and_eq_true, beq_iff_eq, beq_iff_eq]
  exact ⟨huser.trans hpk.symm, hepoch.symm⟩

/-- There is no other task of the user. -/
theorem Withdrew.same {user : Nat} {task t : RevocationTask} (h : Withdrew user task s)
    (ht : t ∈ s.revocationTasks) (huser : t.user = user) : t.identity = task.identity := by
  obtain ⟨hi, howner, -, hkept⟩ := h
  obtain ⟨x, hx, hid⟩ := List.mem_map.mp hkept
  have huserx : x.user = user := (congrArg (fun i => i.2.1) hid).trans howner
  rw [eq_of_key hi.once ht hx (huser.trans huserx.symm)]
  exact hid

/-- A repeated withdrawal finds the task. -/
def Repeats (task : RevocationTask) (r : WithdrawalResult) : Prop :=
  r.created = false ∧ r.task.identity = task.identity

/-- **LATER CALL**: the task is found, and nothing is written. -/
theorem look_withdrawAccount_later (hA : Abides p Γ) {user : Nat} {task : RevocationTask}
    {J : Store → Prop} (hsteady : Steady Γ J) (hwithdrew : ∀ s, J s → Withdrew user task s)
    (h : J w.db) (hpend : w.sess.pend = id) (password : String) :
    Look Γ (withdrawAccountBody user password) w (fun r _ => Repeats task r) Γ.fault := by
  have hΓ := hA.lawful
  have hF : Faults Γ Γ.fault := fun _ he => he
  have later : ∀ {w1 w2 : World Store Lock Obs}, Still Γ w1 w2 → J w1.db → J w2.db :=
    fun hs h1 => hsteady _ _ _ hs.db h1
  refine Look.bind hΓ (look_getForUpdate_found hΓ hF .user (·.users) (·.pk) (·.pk == user) user
    fun w' hs => ?_) fun u w1 hs1 ⟨hu, hpk, hl⟩ => ?_
  · obtain ⟨u, hu, hpk, -⟩ := (hwithdrew _ (later hs h)).2.withdrawn
    refine ⟨u, ?_, beq_iff_eq.mpr hpk, hpk⟩
    rw [view_of_id (hs.pend.trans hpend)]
    exact hu
  have hpend1 : w1.sess.pend = id := hs1.pend.trans hpend
  have h1 : J w1.db := later hs1 h
  have hpk : u.pk = user := beq_iff_eq.mp hpk
  rw [view_of_id hpend1] at hu
  rw [if_pos ((hwithdrew _ h1).found hu hpk).1]
  refine Look.bind hΓ (look_getRow_found hΓ hF .revocationTask _ fun w' hs => ?_)
    fun t w2 hs2 ht => Look.ret hΓ ⟨rfl, ?_⟩
  · -- the row is locked, and so is its epoch
    rw [view_of_id (hs.pend.trans hpend1)]
    have hu' : u ∈ w'.db.users := (hA.same hs.toNear hl).1 u hu rfl
    exact ((hwithdrew _ (later hs h1)).found hu' hpk).2
  · rw [view_of_id (hs2.pend.trans hpend1)] at ht
    have hmatch := List.find?_some ht
    rw [Bool.and_eq_true, beq_iff_eq] at hmatch
    exact (hwithdrew _ (later hs2 h1)).same (List.mem_of_find?_eq_some ht)
      (hmatch.1.trans hpk)

/-- What a repeated withdrawal answers: the task, unless the database fails. -/
def RepeatPost (task : RevocationTask) (F : Exn → Prop) (J : Store → Prop) :
    Except Exn WithdrawalResult → World Store Lock Obs → Prop :=
  fun r w => J w.db ∧ match r with
    | .ok res => Repeats task res
    | .error e => e = .withdrawalUnavailable "회원 탈퇴 권위를 확인할 수 없습니다." ∧ ∃ e', F e'

/-- **LATER CALL**: what it commits changes nothing. -/
theorem wp_withdrawAccount_later (hA : Abides p Γ) {user : Nat} {task : RevocationTask}
    {J : Store → Prop} (hsteady : Steady Γ J) (hwithdrew : ∀ s, J s → Withdrew user task s)
    (hguar : ∀ held s, Γ.guar held s s)
    (hfault : ∀ e, Γ.fault e → ∃ sqlstate, e = .operationalError sqlstate) (hi : Idle w)
    (h : J w.db) (password : String) :
    wp Γ (withdrawAccount user password) (RepeatPost task Γ.fault J) w := by
  refine wp_tryCatch (wp_transaction (F := Γ.fault)
    (P := fun w' r w1 => Repeats task r ∧ w1.sess.pend = id ∧ J w1.db) hA.lawful hi
    (fun w' he => ?_) (fun _ he => he) (fun e w3 he _ _ hrely => ?_)
    fun w' r w1 w2 he hw hp he2 hleave => ?_)
  · have hpend : w'.begin.sess.pend = id := begin_pend_id hi he
    have hdb : J w'.begin.db := hsteady _ _ _ he.db h
    refine wp_mono ?_ (look_withdrawAccount_later hA hsteady hwithdrew hdb hpend password)
    rintro (e | r) w1 ⟨hs, hr⟩
    · exact ⟨hs.within hA.lawful, hr⟩
    · exact ⟨hs.within hA.lawful, hr, hs.pend.trans hpend, hsteady _ _ _ hs.db hdb⟩
  · obtain ⟨sqlstate, rfl⟩ := hfault e he
    exact ⟨hsteady _ _ _ hrely h, rfl, _, he⟩
  · have hview : w2.view = w2.db := view_of_id (by rw [he2.sess]; exact hp.2.1)
    have hpost : J w2.publish.db := by
      show J w2.view
      rw [hview]
      exact hsteady _ _ _ he2.db hp.2.2
    rw [hview]
    refine ⟨fun _ => ⟨hguar _ _, hpost, hp.1⟩, fun e hd => ?_⟩
    rw [hA.deferred, validateBalancedJournal_same rfl rfl] at hd
    exact nomatch hd

/-- **LATER CALL, ALONE**: the task, and nothing changes. -/
theorem withdrawAccount_alone {user : Nat} {task : RevocationTask} (h : Withdrew user task s)
    (password : String) (ids : Nat → Nat) (now : Time) : ∃ t : RevocationTask,
      call (withdrawAccount user password) ids now s = (.ok ⟨t, false⟩, s) ∧
        t.identity = task.identity := by
  have hpost := run_sound ids
    (wp_withdrawAccount_later (alone_abides plainPlatform) (w := ⟨s, now, {}⟩)
      (J := fun s' => s' = s) (fun _ _ _ hsame hs => hsame.trans hs)
      (fun s' hs => by rw [hs]; exact h) (fun _ _ => trivial) (fun _ hf => False.elim hf)
      ⟨rfl, rfl, rfl⟩ rfl password)
  rw [call]
  cases hrun : (withdrawAccount user password).run validateBalancedJournal ids
      ⟨s, now, {}⟩ with
  | mk res w' =>
      rw [hrun] at hpost
      obtain ⟨hdb, hres⟩ := hpost
      have hdb : w'.db = s := hdb
      cases res with
      | ok r =>
          obtain ⟨t, created⟩ := r
          obtain ⟨hcreated, hid⟩ := hres
          cases hcreated
          exact ⟨t, by rw [hdb], hid⟩
      | error e => exact hres.2.elim fun _ hf => False.elim hf

/-! ## Every run -/

/-- A withdrawal that succeeds leaves the task it returns. -/
def AnswersTask (op : RevocationOp) (r : Except Exn (Option WithdrawalResult))
    (w : World Store Lock Obs) : Prop :=
  ∀ user password res, op = .withdrawAccount user password → r = .ok (some res) →
    Registered user res.task w.db

/-- Every operation answers with a task that is there. -/
theorem wp_replayOp (op : RevocationOp) (hi : Idle w) :
    wp (replayCtx p) (op.run p) (fun r w' => Idle w' ∧ AnswersTask op r w') w := by
  have hA := replayCtx_abides p
  cases op with
  | withdrawAccount user password =>
      refine wp_bind (wp_withdrawAccount hA user password hi (fun r w2 _ hleave hdone => ?_)
        fun e w3 hidle _ => ?_)
      · refine ⟨replayCtx_guar hleave hdone.replayStep, ?_⟩
        show Idle w2.publish ∧ AnswersTask _ (.ok (some r)) w2.publish
        refine ⟨publish_idle w2, fun user' password' res hop hr => ?_⟩
        cases hop
        cases hr
        exact hdone.registered
      · exact ⟨hidle, fun _ _ _ _ hr => nomatch hr⟩
  | _ =>
      refine wp_mono (fun r w' hidle => ⟨hidle, fun _ _ _ hop => ?_⟩) (top_replay _ w hi)
      exact nomatch hop

section Runs

variable {ι : Type} [DecidableEq ι] {ops : ι → RevocationOp} {now : Time}
  {c c' : Config ι Store Lock Exn Obs (Option WithdrawalResult)}

omit [DecidableEq ι] in
/-- Every operation is correct. -/
theorem replay_supported (h : ReplayInv s) :
    Supported (fun _ : ι => replayCtx p)
      (fun i r w => (Idle w ∧ AnswersTask (ops i) r w) ∧ ReplayInv w.db)
      (Config.start s now fun i => (ops i).run p) :=
  supported_start (fun _ => (replayCtx_abides p).lawful) fun i =>
    wp_invariant (I := ReplayInv) (Γ := replayCtx p) (fun _ _ _ hrely hi => hrely.2.inv hi)
      (fun _ _ _ hg hi => hg.2.inv hi) (w := ⟨s, now, {}⟩) h
      (wp_replayOp (ops i) ⟨rfl, rfl, rfl⟩)

/-- **RUN**: at most one task for each user in every store reached. -/
theorem replayInv_reached (h : ReplayInv s)
    (hr : Reached s now (fun i => (ops i).run p) c)
    (hactive : AllSee (fun _ => BumpsActive) c) : ReplayInv c.db :=
  top_invariant (replayCtx_fits p) (fun i => top_replay (ops i)) (fun _ _ _ h => False.elim h)
    (fun _ _ _ _ hi hg => hg.2.inv hi) hr hactive h

/-- **RUN**: the task that a withdrawal returned is the task of the user. -/
theorem withdrew_reached (h : ReplayInv s) (hr : Reached s now (fun i => (ops i).run p) c)
    (hactive : AllSee (fun _ => BumpsActive) c) {i : ι} {user : Nat} {password : String}
    {r : WithdrawalResult} (hop : ops i = .withdrawAccount user password)
    (hended : c.prog i = .ret (some r)) : Withdrew user r.task c.db := by
  obtain ⟨w, he, ⟨-, hanswers⟩, hi⟩ := run_ended (replayCtx_fits p) (replay_supported h) hr
    hactive (r := .ok (some r)) hended
  exact withdrew_steady p user r.task _ _ _ he.db ⟨hi, hanswers user password r hop rfl⟩

/-- **RUN**: a call that comes later answers with that task, or the database fails. -/
theorem repeated_withdrawal (h : ReplayInv s) (hr : Reached s now (fun i => (ops i).run p) c)
    (hactive : AllSee (fun _ => BumpsActive) c') {user : Nat} {task : RevocationTask}
    (hw : Withdrew user task c.db) {j : ι} {password : String}
    (hop : ops j = .withdrawAccount user password) (hfresh : c.prog j = (ops j).run p)
    (hidle : c.sess j = {}) {F : Exn → Prop}
    (hF : ∀ e, F e → ∃ sqlstate, e = .operationalError sqlstate)
    (hr' : Reaches (failing (postgres fun _ _ => False) F) c c') :
    (∀ d, Step (failing (postgres fun _ _ => False) F) (some j) c' d →
      AllSee (fun _ => BumpsActive) d → d.db = c'.db) ∧
    ∀ res, c'.prog j = Prog.ofAnswer res → (∃ t : RevocationTask,
      res = .ok (some ⟨t, false⟩) ∧ t.identity = task.identity) ∨
      res = .error (.withdrawalUnavailable "회원 탈퇴 권위를 확인할 수 없습니다.") ∧ ∃ e, F e := by
  have hfit := replayCtx_fits (ι := ι) p
  obtain ⟨ha, hsup, hshown⟩ := run_supported hfit (replay_supported h) hr
    (allSee_of_reaches hr' hactive)
  have hA : Abides p (observer (replayCtx p) F) :=
    ⟨observer_lawful (replayCtx_abides p).lawful F, (replayCtx_abides p).rely,
      (replayCtx_abides p).leave, rfl⟩
  have hidle : Idle (c.world j) := by
    refine ⟨?_, ?_, ?_⟩ <;> rw [Config.world, hidle]
  have hwp : wp (observer (replayCtx p) F) (c.prog j) (fun res _ => (∃ t : RevocationTask,
      res = .ok (some ⟨t, false⟩) ∧ t.identity = task.identity) ∨
      res = .error (.withdrawalUnavailable "회원 탈퇴 권위를 확인할 수 없습니다.") ∧ ∃ e, F e)
      (c.world j) := by
    rw [hfresh, hop]
    refine wp_bind (wp_mono ?_ (wp_withdrawAccount_later hA (withdrew_steady p user task)
      (fun _ h => h) (fun _ _ => rfl) hF hidle hw password))
    rintro (e | r) w' ⟨-, hpost⟩
    · obtain ⟨rfl, hfault⟩ := hpost
      exact Or.inr ⟨rfl, hfault⟩
    · obtain ⟨t, created⟩ := r
      obtain ⟨hcreated, hid⟩ := hpost
      cases hcreated
      exact Or.inl ⟨t, rfl, hid⟩
  obtain ⟨hsame, hpost⟩ := run_observer hfit ha hsup hshown hF hwp hr' hactive
  refine ⟨hsame, fun res hres => ?_⟩
  obtain ⟨w, -, hp⟩ := hpost res hres
  exact hp

end Runs

/-- **WITHDRAWN ONCE**: in every interleaving in which no scope of a withdrawn user is
    revoked, nobody has two tasks in any store reached, and whoever withdrew gets the same
    task from every later call, which changes nothing: from a call that has the database to
    itself, and from one among the other sessions, unless the database fails it. -/
theorem withdrawal_once {ι : Type} [DecidableEq ι] (p : Platform) (ops : ι → RevocationOp)
    {s : Store} {now : Time} {c : Config ι Store Lock Exn Obs (Option WithdrawalResult)}
    (h : ReplayInv s) (hr : Reached s now (fun i => (ops i).run p) c)
    (hactive : AllSee (fun _ => BumpsActive) c) :
    (∀ user, (c.db.revocationTasks.filter (·.user == user)).length ≤ 1) ∧
    ∀ i user password r, ops i = .withdrawAccount user password →
      c.prog i = .ret (some r) →
      (∀ again ids, ∃ t : RevocationTask,
        call (withdrawAccount user again) ids c.now c.db = (.ok ⟨t, false⟩, c.db) ∧
          t.identity = r.task.identity) ∧
      ∀ j again, ops j = .withdrawAccount user again → c.prog j = (ops j).run p →
        c.sess j = {} → ∀ F : Exn → Prop,
        (∀ e, F e → ∃ sqlstate, e = .operationalError sqlstate) →
        ∀ c', Reaches (failing (postgres fun _ _ => False) F) c c' →
          AllSee (fun _ => BumpsActive) c' →
          (∀ d, Step (failing (postgres fun _ _ => False) F) (some j) c' d →
            AllSee (fun _ => BumpsActive) d → d.db = c'.db) ∧
          ∀ res, c'.prog j = Prog.ofAnswer res →
            (∃ t : RevocationTask, res = .ok (some ⟨t, false⟩) ∧
              t.identity = r.task.identity) ∨
            res = .error (.withdrawalUnavailable "회원 탈퇴 권위를 확인할 수 없습니다.") ∧
              ∃ e, F e := by
  refine ⟨(replayInv_reached h hr hactive).one, fun i user password r hop hended => ?_⟩
  have hw : Withdrew user r.task c.db := withdrew_reached h hr hactive hop hended
  refine ⟨fun again ids => withdrawAccount_alone hw again ids c.now, ?_⟩
  intro j again hop' hfresh hidle F hF c' hr' hactive'
  exact repeated_withdrawal h hr hactive' hw hop' hfresh hidle hF hr'

/-! ## A revoked scope after a withdrawal -/

/-- A member of staff with an empty account, who may sanction another user. -/
def staffLeaving : Store where
  users := emptyHanded.users
  accounts := emptyHanded.accounts
  ledgerAccounts := emptyHanded.ledgerAccounts
  scopeGrants := [{ pk := 4, staff := 1, codename := "apply_sanction", targetUser := some 2,
                    grantedBy := 9 }]

/-- The withdrawal, the revocation of the scope, a second withdrawal, and the preparation
    for the new epoch. -/
def withdrawAndRevoke : Fin 4 → RevocationOp
  | 0 => .withdrawAccount 1 "correct horse"
  | 1 => .revokeScope ⟨9, true, true, true, fun _ => true, true⟩ 4 "left the team" 1 (some 1000)
  | 2 => .withdrawAccount 1 "correct horse"
  | 3 => .prepareWithdrawalRevocation 1 2

def withdrawAndRevokeStart :
    Config (Fin 4) Store Lock Exn Obs (Option WithdrawalResult) :=
  Config.start staffLeaving 1000 fun i => (withdrawAndRevoke i).run plainPlatform

/-- The answer of a withdrawal, of the task with primary key 10. -/
def firstTask : RevocationTask :=
  { pk := 10, user := 1, eventKey := withdrawalEventKey 1 1, authEpoch := 1, availableAt := 11 }

/-- The scope is revoked after the withdrawal, and the epoch of its holder moves on: the
    second withdrawal finds no task, and the preparation makes another one. -/
theorem withdrawal_unavailable : ∃ c c' :
    Config (Fin 4) Store Lock Exn Obs (Option WithdrawalResult),
    Reached staffLeaving 1000 (fun i => (withdrawAndRevoke i).run plainPlatform) c ∧
      Reaches (postgres fun _ _ => False) c c' ∧ ReplayInv staffLeaving ∧
      c.prog 0 = .ret (some ⟨firstTask, true⟩) ∧
      (c.prog 2 = (withdrawAndRevoke 2).run plainPlatform ∧ c.sess 2 = {}) ∧
      c'.prog 2 =
        .raise (.withdrawalUnavailable "회원 탈퇴 권위를 확인할 수 없습니다.") ∧
      (c'.db.revocationTasks.filter (·.user == 1)).length = 2 := by
  have hplay : ((play validateBalancedJournal [.run 0 200 (fun k => 10 + k)]
      withdrawAndRevokeStart).bind fun d =>
        (play validateBalancedJournal [.run 1 200 (fun k => 50 + k), .run 2 200 id,
          .run 3 200 (fun k => 100 + k)] d).map fun d' =>
            (decide (answered (d.prog 0) = some (.ok (some ⟨firstTask, true⟩))),
              (decide (answered (d'.prog 2) = some (.error
                (.withdrawalUnavailable "회원 탈퇴 권위를 확인할 수 없습니다."))),
                (d'.db.revocationTasks.filter (·.user == 1)).length))) =
      some (true, (true, 2)) := by decide +kernel
  obtain ⟨c, hc, hplay⟩ := Option.bind_eq_some_iff.mp hplay
  obtain ⟨c', hc', hplay⟩ := Option.map_eq_some_iff.mp hplay
  obtain ⟨hfirst, hrest⟩ := Prod.ext_iff.mp hplay
  obtain ⟨hsecond, htwo⟩ := Prod.ext_iff.mp hrest
  refine ⟨c, c', reaches_play hc, reaches_play hc', by decide,
    answered_eq (of_decide_eq_true hfirst), ?_, answered_eq (of_decide_eq_true hsecond), htwo⟩
  exact play_absent hc fun k ids hmem => by simp at hmem

/-- The scope is revoked before its holder withdraws. -/
theorem withdrawal_once_after_revocation : ∃ c :
    Config (Fin 4) Store Lock Exn Obs (Option WithdrawalResult),
    Reached staffLeaving 1000 (fun i => (withdrawAndRevoke i).run plainPlatform) c ∧
      (c.db.scopeGrants.map (·.revokedAt), c.db.revocationTasks.map (·.authEpoch)) =
        ([some 1000], [2]) ∧
      (∀ user, (c.db.revocationTasks.filter (·.user == user)).length ≤ 1) ∧
      ∀ i user password r, withdrawAndRevoke i = .withdrawAccount user password →
        c.prog i = .ret (some r) →
        (∀ again ids, ∃ t : RevocationTask,
          call (withdrawAccount user again) ids c.now c.db = (.ok ⟨t, false⟩, c.db) ∧
            t.identity = r.task.identity) ∧
        ∀ j again, withdrawAndRevoke j = .withdrawAccount user again →
          c.prog j = (withdrawAndRevoke j).run plainPlatform → c.sess j = {} →
          ∀ F : Exn → Prop, (∀ e, F e → ∃ sqlstate, e = .operationalError sqlstate) →
          ∀ c', Reaches (failing (postgres fun _ _ => False) F) c c' →
            AllSee (fun _ => BumpsActive) c' →
            (∀ d, Step (failing (postgres fun _ _ => False) F) (some j) c' d →
              AllSee (fun _ => BumpsActive) d → d.db = c'.db) ∧
            ∀ res, c'.prog j = Prog.ofAnswer res →
              (∃ t : RevocationTask, res = .ok (some ⟨t, false⟩) ∧
                t.identity = r.task.identity) ∨
              res = .error (.withdrawalUnavailable "회원 탈퇴 권위를 확인할 수 없습니다.") ∧
                ∃ e, F e := by
  have hplay : (play validateBalancedJournal [.run 1 200 (fun k => 50 + k),
      .run 0 200 (fun k => 10 + k)] withdrawAndRevokeStart).map (fun d =>
        ((d.db.scopeGrants.map (·.revokedAt), d.db.revocationTasks.map (·.authEpoch)),
          decide (∀ i, ∀ x ∈ marksOf (d.sess i).hist, BumpsActive x.2.2 x.1 x.2.1))) =
      some (([some 1000], [2]), true) := by decide +kernel
  obtain ⟨c, hr, hc⟩ := reaches_of_play (D := postgres fun _ _ => False) (f := fun d => _) hplay
  obtain ⟨hrows, hactive⟩ := Prod.ext_iff.mp hc
  refine ⟨c, hr, hrows, ?_⟩
  exact withdrawal_once plainPlatform withdrawAndRevoke (by decide) hr
    (allSee_iff.mpr (of_decide_eq_true hactive))

end Market
