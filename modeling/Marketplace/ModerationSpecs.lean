import Marketplace.SafeManagement
import Marketplace.WithdrawalSpecs

/-! # What the operations of the moderation commit

    Three operations insert a sanction, under the lock of its target and after a look for
    a live one; a sanction by reports also bumps the epoch of a user that becomes dormant.
    `Moderated` says what such a transaction does to the sanctions, the releases, the
    users and the revocation tasks, and on which checks it relies. -/

namespace Market

open TxnProgram TxnInterleaving TxnLogic TxnProtection TxnBody TxnFrames

variable {p : Platform} {Γ : Ctx Store Lock Exn Obs} {w w' : World Store Lock Obs}
  {ls : List Lock} {s s' s'' : Store}

/-! ## What stays -/

/-- Sanctions, releases, users and tasks stay as they are. -/
structure Untouched (s s' : Store) : Prop where
  actions : s'.actions = s.actions
  releases : s'.releases = s.releases
  users : s'.users = s.users
  tasks : s'.revocationTasks = s.revocationTasks
  effects : s'.effects = s.effects

/-- In the same store nothing was touched. -/
theorem Untouched.refl (s : Store) : Untouched s s := ⟨rfl, rfl, rfl, rfl, rfl⟩

/-- Two stretches that touch no sanction make one. -/
theorem Untouched.trans (h : Untouched s s') (h' : Untouched s' s'') : Untouched s s'' where
  actions := h'.actions.trans h.actions
  releases := h'.releases.trans h.releases
  users := h'.users.trans h.users
  tasks := h'.tasks.trans h.tasks
  effects := h'.effects.trans h.effects

/-- Leaving the sanctions alone composes, as the run rules ask. -/
theorem untouched_composes : Composes Untouched :=
  ⟨Untouched.refl, fun _ _ _ h h' => h.trans h'⟩

/-- The kinds of writes that touch one of these tables. -/
def touching : List WriteKind := [.action, .release, .bump, .withdrawal, .task, .profile]

/-- A write of a kind that is not listed leaves the sanctions alone, whoever makes it. -/
theorem untouched_licensed {k : WriteKind} (hk : k ∉ touching) {held : List Lock}
    {f : Store → Store} (h : Licensed held k f) (s : Store) : Untouched s (f s) := by
  cases h with
  | action _ _ _ => exact absurd (by decide) hk
  | release _ _ _ => exact absurd (by decide) hk
  | bump _ _ => exact absurd (by decide) hk
  | withdrawal _ _ _ => exact absurd (by decide) hk
  | task _ _ _ _ _ => exact absurd (by decide) hk
  | profile _ _ => exact absurd (by decide) hk
  | _ => exact ⟨rfl, rfl, rfl, rfl, rfl⟩

/-- The insertion of a sanction commutes with what the others change. -/
theorem Untouched.addAction (h : Untouched s s') (a : ModerationAction) :
    Untouched (addAction a s) (addAction a s') :=
  { h with actions := congrArg (· ++ [a]) h.actions }

/-- So does the revocation of the target's sessions. -/
theorem Untouched.bump (h : Untouched s s') (n : Nat) :
    Untouched (bumpAuthEpoch n s) (bumpAuthEpoch n s') :=
  { h with users := congrArg (List.map _) h.users }

/-- A body whose writes touch none of these tables. -/
theorem body_untouched (hA : Abides p Γ) {α : Type} {m : M α} (ks : List WriteKind)
    (hks : ∀ k ∈ ks, k ∉ touching)
    (hm : ∀ Γ', Lawful Γ' → PermitsAll Γ' ks → Safe Γ' [] m) (hopen : w.sess.frames ≠ []) :
    Body Γ m w (fun _ w' => ∀ s, Untouched (w.sess.pend s) (w'.sess.pend s)) anyError :=
  body_keeps hA.lawful (hA.permits ks) untouched_composes
    (fun k hk _ _ hf s => untouched_licensed (hks k hk) hf s) hm hopen no_locks

/-! ## A sanction -/

/-- The row that `createAction` inserts. -/
def sanctionRow (n : Nat) (targetType : TargetType) (target : Nat) (startsAt : Time) :
    ModerationAction :=
  match targetType with
  | .user => { pk := n, kind := .userDormancy, targetUser := some target,
               startsAt := startsAt, expiresAt := startsAt + ACTION_DURATION }
  | .product | .review =>
      { pk := n, kind := .productHide, targetProduct := some target,
        startsAt := startsAt, expiresAt := startsAt + ACTION_DURATION }

/-- The insertion of the sanction: a row of its own key, under the lock of the target. -/
theorem body_createAction (hA : Abides p Γ) {targetType : TargetType} {target : Nat}
    (hlock : targetLock targetType target ∈ w.sess.held) (startsAt : Time) :
    Body Γ (createAction targetType target startsAt) w (fun a w' =>
      ∃ n, a = sanctionRow n targetType target startsAt ∧
        w'.sess.pend = fun s => addAction a (w.sess.pend s)) anyError := by
  have hΓ := hA.lawful
  refine Body.look hΓ Look.fresh fun n w1 h1 _ => ?_
  have hrow : Body Γ (do
      insertRow [.pk .action n] (addAction (sanctionRow n targetType target startsAt))
      return sanctionRow n targetType target startsAt : M ModerationAction) w1
      (fun a w' => ∃ n, a = sanctionRow n targetType target startsAt ∧
        w'.sess.pend = fun s => addAction a (w.sess.pend s)) anyError := by
    refine Body.bind hΓ (body_insertRow hΓ anyError_faults trivial
      fun held hsub hkeys s => hA.leave _ _ _ (respects_addAction ?_ ?_))
      fun _ w2 _ hi => Body.ret hΓ ⟨n, rfl, ?_⟩
    · cases targetType <;> exact hkeys _ List.mem_cons_self
    · have hl := hsub (h1.held hlock)
      cases targetType with
      | user => exact ⟨fun m hm => by cases hm; exact hl, fun _ hm => (nomatch hm)⟩
      | product => exact ⟨fun _ hm => (nomatch hm), fun m hm => by cases hm; exact hl⟩
      | review => exact ⟨fun _ hm => (nomatch hm), fun m hm => by cases hm; exact hl⟩
    · rw [hi.pend, h1.pend]
  cases targetType <;> exact hrow

/-- No sanction of the target that is not released has a window with `t` in it. -/
def NoneLive (targetType : TargetType) (target : Nat) (t : Time) (s : Store) : Prop :=
  ∀ a ∈ s.actions, a.targets targetType target = true → released s a = false →
    a.kind = targetType.actionKind → a.inWindow t = false

/-- The target was found without a live sanction, and what is given of the moment before
    the insert is given; since then the target has been locked. -/
structure Checked (Γ : Ctx Store Lock Exn Obs) (targetType : TargetType) (target : Nat)
    (clock : Time) (held : List Lock) (s : Store) : Prop where
  lock : targetLock targetType target ∈ held
  looked : ∃ checkedAt now s0 s1, clock ≤ checkedAt ∧ NoneLive targetType target checkedAt s0 ∧
    Γ.rely [targetLock targetType target] s0 s1 ∧
    Γ.given (.sanctioning targetType target clock checkedAt) now s1 ∧
    Γ.rely [targetLock targetType target] s1 s

/-- What the others do under a lock that is held is what the discipline allows. -/
theorem rely_locked (hΓ : Lawful Γ) {l : Lock} (hl : l ∈ w.sess.held) (h : Near Γ w w') :
    Γ.rely [l] w.db w'.db :=
  hΓ.anti _ _ _ _ (fun x hx => by rw [List.mem_singleton.mp hx]; exact hl) h.db

/-- What was checked under the lock holds still a few statements later. -/
theorem Checked.near {targetType : TargetType} {target : Nat} {clock : Time}
    (hΓ : Lawful Γ) (h : Checked Γ targetType target clock w.sess.held w.db)
    (hn : Near Γ w w') : Checked Γ targetType target clock w'.sess.held w'.db := by
  obtain ⟨checkedAt, now, s0, s1, hle, hnone, h01, hgiven, h1⟩ := h.looked
  exact ⟨hn.held h.lock, checkedAt, now, s0, s1, hle, hnone, h01, hgiven,
    hΓ.trans _ _ _ _ h1 (rely_locked hΓ h.lock hn)⟩

/-- A user that is sanctioned is an active one. -/
def ActiveTarget (targetType : TargetType) (target : Nat) (s : Store) : Prop :=
  targetType = .user → ∃ u ∈ s.users, u.pk = target ∧ u.isActive = true

/-- An active target stays one while its row is locked. -/
theorem ActiveTarget.near {targetType : TargetType} {target : Nat} (hA : Abides p Γ)
    (h : ActiveTarget targetType target w.db)
    (hl : targetLock targetType target ∈ w.sess.held) (hn : Near Γ w w') :
    ActiveTarget targetType target w'.db := by
  rintro rfl
  obtain ⟨u, hu, hpk, hactive⟩ := h rfl
  exact ⟨u, (hA.same hn hl).1 u hu hpk, hpk, hactive⟩

/-- The write that makes a user with a sanction by reports log in again. -/
def bumpTarget (targetType : TargetType) (target : Nat) (s : Store) : Store :=
  if targetType == .user then bumpAuthEpoch target s else s

/-- What a transaction of the moderation does to these tables: nothing, or one sanction,
    by hand or by reports. -/
inductive Moderated (Γ : Ctx Store Lock Exn Obs) (targetType : TargetType) (target : Nat)
    (held : List Lock) (s0 : Store) (f : Store → Store) : Prop where
  | untouched : (∀ s, Untouched s (f s)) → Moderated Γ targetType target held s0 f
  | sanctioned (n : Nat) (clock : Time) : Checked Γ targetType target clock held s0 →
      (∀ s, Untouched (addAction (sanctionRow n targetType target clock) s) (f s)) →
      Moderated Γ targetType target held s0 f
  | reported (n : Nat) (clock : Time) : Checked Γ targetType target clock held s0 →
      ActiveTarget targetType target s0 →
      (∀ s, Untouched (bumpTarget targetType target
        (addAction (sanctionRow n targetType target clock) s)) (f s)) →
      Moderated Γ targetType target held s0 f

/-- The pending write stays the one that the check allows. -/
theorem Moderated.near {targetType : TargetType} {target : Nat} {f : Store → Store}
    (hA : Abides p Γ) (h : Moderated Γ targetType target w.sess.held w.db f)
    (hn : Near Γ w w') : Moderated Γ targetType target w'.sess.held w'.db f := by
  cases h with
  | untouched h => exact .untouched h
  | sanctioned n clock hc h => exact .sanctioned n clock (hc.near hA.lawful hn) h
  | reported n clock hc ha h =>
      exact .reported n clock (hc.near hA.lawful hn) (ha.near hA hc.lock hn) h

/-- The revocation raises the epoch of the user that the target is, or owns. -/
theorem body_revokeSessions (hA : Abides p Γ) (targetType : TargetType) (target : Nat) :
    Body Γ (revokeSessions targetType target) w (fun _ w' =>
      w'.sess.pend = fun s => bumpTarget targetType target (w.sess.pend s)) anyError := by
  have hΓ := hA.lawful
  rw [revokeSessions]
  by_cases htype : targetType = .user
  · have hbeq : (targetType == .user) = true := by rw [htype]; rfl
    rw [if_pos hbeq]
    refine (body_updateRows hΓ anyError_faults fun held _ hlocks s => hA.leave _ _ _
      (respects_updateUser (f := fun u => { u with authEpoch := u.authEpoch + 1 })
        (fun _ _ => rfl) (hlocks _ List.mem_cons_self))).mono fun _ w1 _ hp => ?_
    rw [hp.1]
    funext s
    rw [bumpTarget, if_pos hbeq]
    rfl
  · have hbeq : ¬ (targetType == .user) = true := fun h => htype (beq_iff_eq.mp h)
    rw [if_neg hbeq]
    refine Body.ret hΓ ?_
    funext s
    rw [bumpTarget, if_neg hbeq]

/-- Whoever owns the target, the revocation commutes with the others. -/
theorem Untouched.bumpTarget (h : Untouched s s') (targetType : TargetType) (target : Nat) :
    Untouched (bumpTarget targetType target s) (bumpTarget targetType target s') := by
  rw [Market.bumpTarget, Market.bumpTarget]
  split
  · exact h.bump target
  · exact h

/-- The writes of a sanction by reports. -/
theorem body_applyAction (hA : Abides p Γ) {targetType : TargetType} {target : Nat}
    (clock : Time) (actor : Option Nat) (reports : List AbuseReport)
    (hlock : targetLock targetType target ∈ w.sess.held)
    (hpend : ∀ s, Untouched s (w.sess.pend s)) :
    Body Γ (applyAction targetType target clock actor reports) w (fun _ w' => ∃ n,
      ∀ s, Untouched (bumpTarget targetType target
        (addAction (sanctionRow n targetType target clock) s)) (w'.sess.pend s)) anyError := by
  have hΓ := hA.lawful
  refine Body.bind hΓ (body_createAction hA hlock clock) fun a w1 h1 ⟨n, ha, hp1⟩ => ?_
  refine Body.bind hΓ (body_updateRows hΓ anyError_faults fun _ _ _ s => hA.leave _ _ _
    (show Respects p _ s (consumeReports (reports.map (·.pk)) a.pk s) from
      respects_consumeReports)) fun _ w2 h2 hp2 => ?_
  refine Body.bind hΓ (body_revokeSessions hA targetType target) fun _ w3 h3 hp3 => ?_
  refine Body.bind hΓ (body_insertRow hΓ anyError_faults trivial fun held _ hkeys s =>
    hA.leave _ _ _ (respects_addAuditEvent fun m hm => ?_)) fun _ w4 h4 hi =>
      Body.ret hΓ ⟨n, fun s => ?_⟩
  · cases hm
    exact hkeys _ List.mem_cons_self
  · have h1 : Untouched (addAction (sanctionRow n targetType target clock) s)
        (w2.sess.pend s) := by
      rw [hp2.1, hp1, ha]
      exact ((hpend s).addAction _).trans ⟨rfl, rfl, rfl, rfl, rfl⟩
    rw [hi.pend, hp3]
    exact (h1.bumpTarget targetType target).trans ⟨rfl, rfl, rfl, rfl, rfl⟩

/-! ## The look for a live sanction -/

/-- No first row by key means no row. -/
theorem eq_nil_of_firstByPk {ρ : Type} {pk : ρ → Nat} {rows : List ρ}
    (h : firstByPk pk rows = none) : rows = [] := by
  rw [firstByPk, List.head?_eq_none_iff] at h
  have hlen := congrArg List.length h
  rw [List.length_insertionSort] at hlen
  exact List.eq_nil_of_length_eq_zero hlen

/-- No live sanction before, and none touched: no live sanction after. -/
theorem Untouched.noneLive {targetType : TargetType} {target : Nat} {t : Time}
    (h : Untouched s s') (hnone : NoneLive targetType target t s') :
    NoneLive targetType target t s := by
  intro a ha htargets hreleased hkind
  refine hnone a (by rw [h.actions]; exact ha) htargets ?_ hkind
  rw [released, h.releases]
  exact hreleased

/-- The look of `_active_action_for_target`. -/
theorem noneLive_of_activeActions {targetType : TargetType} {target : Nat} {t : Time}
    (h : firstByPk (·.pk) ((activeActions t s).filter (·.targets targetType target)) = none) :
    NoneLive targetType target t s := by
  intro a ha htargets hreleased _
  have hnone := List.filter_eq_nil_iff.mp (eq_nil_of_firstByPk h) a
  by_contra hwindow
  rw [Bool.not_eq_false] at hwindow
  refine hnone (List.mem_filter.mpr ⟨ha, ?_⟩) htargets
  rw [hwindow, hreleased]
  rfl

/-- The look of `apply_sanction`. -/
theorem noneLive_of_filter {targetType : TargetType} {target : Nat} {t : Time}
    (h : firstByPk (·.pk) (s.actions.filter fun a => a.kind == targetType.actionKind &&
      a.inWindow t && !released s a && a.targets targetType target) = none) :
    NoneLive targetType target t s := by
  intro a ha htargets hreleased hkind
  have hnone := List.filter_eq_nil_iff.mp (eq_nil_of_firstByPk h) a ha
  by_contra hwindow
  rw [Bool.not_eq_false] at hwindow
  rw [hwindow, hreleased, htargets, hkind] at hnone
  simp at hnone

/-- A context in which sanctions may be inserted. -/
def ShowsSanctions (Γ : Ctx Store Lock Exn Obs) : Prop :=
  ∀ targetType target clock checkedAt now s,
    Γ.given (.sanctioning targetType target clock checkedAt) now s →
    Γ.shown (.sanctioning targetType target clock checkedAt) now s

/-- The observation before the insert, after a look that found nothing. -/
theorem look_sanctioning (hΓ : Lawful Γ) (hshow : ShowsSanctions Γ)
    {targetType : TargetType} {target : Nat} {clock c : Time}
    (hlock : targetLock targetType target ∈ w.sess.held) (hclock : clock ≤ c)
    (hnone : NoneLive targetType target c s)
    (h0 : Γ.rely [targetLock targetType target] s w.db) :
    Look Γ (Prog.observe (.sanctioning targetType target clock c)) w
      (fun _ w' => Checked Γ targetType target clock w'.sess.held w'.db) anyError := by
  refine (Look.observe fun w1 _ hgiven => hshow _ _ _ _ _ _ hgiven).mono ?_
  rintro _ _ _ ⟨w1, h1, hgiven, rfl⟩
  exact ⟨h1.held hlock, c, w1.now, s, w1.db, hclock, hnone,
    hΓ.trans _ _ _ _ h0 (rely_locked hΓ hlock h1.toNear), hgiven, hΓ.refl _ _⟩

/-! ## The operations -/

/-- `_evaluate_locked`, on a target in good standing. -/
theorem body_evaluateLocked (hA : Abides p Γ) (hshow : ShowsSanctions Γ)
    {targetType : TargetType} {target : Nat} {clock : Time} (actor : Option Nat)
    (hlock : targetLock targetType target ∈ w.sess.held) (hclock : clock ≤ w.now)
    (hactive : ActiveTarget targetType target w.db)
    (hpend : ∀ s, Untouched s (w.sess.pend s)) (hopen : w.sess.frames ≠ []) :
    Body Γ (evaluateLocked targetType target clock actor) w
      (fun _ w' => Moderated Γ targetType target w'.sess.held w'.db w'.sess.pend) anyError := by
  have hΓ := hA.lawful
  refine Body.look hΓ (look_fetchNow anyError_faults _) fun ⟨active, checkedAt⟩ w1 h1 hlook => ?_
  obtain ⟨hlook, hchecked⟩ := Prod.ext_iff.mp hlook
  change active = _ at hlook
  change checkedAt = w1.now at hchecked
  have hpend1 : ∀ s, Untouched s (w1.sess.pend s) := by
    rw [h1.pend]
    exact hpend
  cases active with
  | some a => exact Body.ret hΓ (.untouched hpend1)
  | none =>
      have hnone : NoneLive targetType target checkedAt w1.db := by
        rw [hchecked]
        exact (hpend1 w1.db).noneLive (noneLive_of_activeActions hlook.symm)
      refine Body.bind hΓ (body_untouched hA [] (fun _ hk => nomatch hk)
        (fun Γ' hΓ' _ => safe_qualifyingReports hΓ' targetType target clock)
        (by rw [h1.frames]; exact hopen)) fun ⟨reports, byContext⟩ w2 h2 hp2 => ?_
      refine Body.look (P := fun _ _ => True) hΓ ?_ fun qualifies w3 h3 _ => ?_
      · cases qualifiesForAction targetType byContext with
        | error e => exact Look.raise hΓ trivial
        | ok qualifies => exact Look.ret hΓ trivial
      have hpend3 : ∀ s, Untouched s (w3.sess.pend s) := by
        rw [h3.pend]
        exact fun s => (hpend1 s).trans (hp2 s)
      have h13 : Near Γ w1 w3 := h2.toNear.trans hΓ h3.toNear
      cases qualifies with
      | false => exact Body.ret hΓ (.untouched hpend3)
      | true =>
          refine Body.look hΓ (look_sanctioning (s := w1.db) (c := checkedAt) hΓ hshow
            (h13.held (h1.held hlock)) ?_ hnone (rely_locked hΓ (h1.held hlock) h13))
            fun _ w4 h4 hch => ?_
          · rw [hchecked]
            exact Nat.le_trans hclock h1.now
          refine Body.bind hΓ (body_applyAction hA clock actor reports hch.lock ?_)
            fun _ w5 h5 ⟨n, hp5⟩ => Body.ret hΓ ?_
          · rw [h4.pend]
            exact hpend3
          · have hnear : Near Γ w w5 := h1.toNear.trans hΓ (h13.trans hΓ
              (h4.toNear.trans hΓ h5.toNear))
            exact .reported n clock (hch.near hΓ h5.toNear) (hactive.near hA hlock hnear) hp5

/-- The locked row of a target is still there as it was. -/
theorem LockedTarget.row (hA : Abides p Γ) {target : Nat} {u : User}
    (h : LockedTarget Γ w w' target u) (hpend : w.sess.pend = id) : u ∈ w'.db.users := by
  obtain ⟨w1, h1, h2, hlock, hu⟩ := h.locked
  rw [view_of_id (h1.pend.trans hpend)] at hu
  exact (hA.same h2.toNear hlock).1 u hu h.pk

/-- The check of the reporter only reads. -/
theorem look_reporterCanContribute (hΓ : Lawful Γ) (reporter : User) (now : Time) :
    Look Γ (reporterCanContribute reporter now) w (fun _ _ => True) anyError := by
  rw [reporterCanContribute]
  split
  · exact Look.bind hΓ (look_effectiveUserStatus hΓ anyError_faults _ _) fun _ _ _ _ =>
      Look.ret hΓ trivial
  · exact Look.ret hΓ trivial

/-- Only active users are reported. -/
theorem look_mayReport (hΓ : Lawful Γ) (parties : SubmissionParties) :
    Look Γ (mayReport parties) w (fun allowed _ => allowed = true →
      ∀ u, parties.targetUser = some u → u.isActive = true) anyError := by
  rw [mayReport.eq_def]
  split
  · next u _ huser =>
      split
      · exact Look.ret hΓ fun h => by cases h
      · next hrefused =>
          rw [Bool.or_eq_true, not_or, Bool.not_eq_true', Bool.not_eq_false] at hrefused
          refine Look.bind hΓ (look_effectiveUserStatus hΓ anyError_faults _ _) fun _ _ _ _ =>
            Look.ret hΓ fun _ x hx => ?_
          rw [huser] at hx
          cases hx
          exact hrefused.2
  · next _ _ hnone _ =>
      split
      · exact Look.ret hΓ fun h => by cases h
      · refine Look.bind hΓ (look_effectiveProductVisibility hΓ anyError_faults _ _) fun _ _ _ _ =>
          Look.ret hΓ fun _ x hx => ?_
        rw [hnone] at hx
        cases hx
  · exact Look.ret hΓ fun h => by cases h

/-- **SPECIFICATION** of the transaction of `submit_report`. -/
theorem body_submitReport (hA : Abides p Γ) (hshow : ShowsSanctions Γ) (reporter : Nat)
    (targetType : TargetType) (target : Nat) (context : ReportContext) (reason : String)
    (hpend : w.sess.pend = id) (hopen : w.sess.frames ≠ []) :
    Body Γ (submitReportBody reporter targetType target context reason) w
      (fun _ w' => Moderated Γ targetType target w'.sess.held w'.db w'.sess.pend) anyError := by
  have hΓ := hA.lawful
  refine Body.look hΓ (look_lockSubmissionParties hΓ reporter targetType target w)
    fun parties w1 h1 ⟨hclock, hlock, huser⟩ => ?_
  refine Body.look hΓ (look_reporterCanContribute hΓ _ _) fun _ w2 h2 _ => ?_
  refine Body.look hΓ (look_raiseIf hΓ fun _ => trivial) fun _ w3 h3 _ => ?_
  refine Body.look hΓ (look_mayReport hΓ parties) fun allowed w4 h4 hallowed => ?_
  refine Body.look hΓ (look_raiseIf hΓ fun _ => trivial) fun _ w5 h5 hpassed => ?_
  have h15 : Still Γ w1 w5 := h2.trans hΓ (h3.trans hΓ (h4.trans hΓ h5))
  have hpend5 : w5.sess.pend = id := h15.pend.trans (h1.pend.trans hpend)
  have hactive : ActiveTarget targetType target w5.db := by
    intro htype
    obtain ⟨u, hu, hlocked⟩ := huser htype
    have hrow := hlocked.row hA hpend
    have hl1 : .row .user target ∈ w1.sess.held := by
      rw [htype] at hlock
      exact hlock
    refine ⟨u, (hA.same h15.toNear hl1).1 u hrow hlocked.pk, hlocked.pk, hallowed ?_ u hu⟩
    rw [Bool.not_eq_false'] at hpassed
    exact hpassed
  have hopen5 : w5.sess.frames ≠ [] := by
    rw [h15.frames, h1.frames]
    exact hopen
  refine Body.bind hΓ (body_untouched hA [.report] (by decide) (fun Γ' hΓ' hp =>
    safe_createReport hΓ' hp targetType context reason parties) hopen5)
    fun report w6 h6 hp6 => ?_
  have h16 : Near Γ w1 w6 := h15.toNear.trans hΓ h6.toNear
  refine Body.bind hΓ (body_evaluateLocked hA hshow _ (h16.held hlock)
    (Nat.le_trans hclock h16.now) (hactive.near hA (h15.held hlock) h6.toNear) (fun s => ?_)
    (by rw [h6.frames]; exact hopen5)) fun action w7 h7 hdone => Body.ret hΓ hdone
  have hsame := hp6 s
  rw [hpend5] at hsame
  exact hsame

/-- Only active users in good standing are evaluated. -/
theorem look_standing (hA : Abides p Γ) (targetType : TargetType) (target : Nat)
    (hpend : w.sess.pend = id) :
    Look Γ (lockTarget targetType target) w (fun standing w' =>
      targetLock targetType target ∈ w'.sess.held ∧
      (standing = true → ActiveTarget targetType target w'.db)) anyError := by
  have hΓ := hA.lawful
  by_cases htype : targetType = .user
  · subst htype
    refine Look.bind (P := fun u w1 => .row .user target ∈ w1.sess.held ∧ u ∈ w1.db.users ∧
        u.pk = target) hΓ (Look.tryCatch (G := anyError) hΓ ((look_getForUpdate hΓ
          anyError_faults _ _ _ _ trivial).mono fun u w1 h1 ⟨hu, hpk, hl⟩ => ?_)
        fun e w1 _ _ => ?_) fun user w1 _ ⟨hl, hu, hpk⟩ => ?_
    · rw [view_of_id (h1.pend.trans hpend)] at hu
      rw [beq_iff_eq] at hpk
      rw [hpk] at hl
      exact ⟨hl, hu, hpk⟩
    · split <;> exact Look.raise hΓ trivial
    · split
      · exact Look.ret hΓ ⟨hl, fun h => nomatch h⟩
      · next hactive =>
          rw [Bool.not_eq_true', Bool.not_eq_false] at hactive
          refine Look.bind hΓ (look_effectiveUserStatus hΓ anyError_faults _ _) fun _ w2 h2 _ =>
            Look.ret hΓ ⟨h2.held hl, fun _ _ => ?_⟩
          exact ⟨user, (hA.same h2.toNear hl).1 user hu hpk, hpk, hactive⟩
  · exact (look_lockTarget hΓ targetType target w).mono fun _ _ _ hl =>
      ⟨hl, fun _ h => absurd h htype⟩

/-- **SPECIFICATION** of the transaction of `evaluate_threshold`. -/
theorem body_evaluateThreshold (hA : Abides p Γ) (hshow : ShowsSanctions Γ)
    (targetType : TargetType) (target : Nat) (hpend : w.sess.pend = id)
    (hopen : w.sess.frames ≠ []) :
    Body Γ (evaluateThresholdBody targetType target) w
      (fun _ w' => Moderated Γ targetType target w'.sess.held w'.db w'.sess.pend) anyError := by
  have hΓ := hA.lawful
  refine Body.look hΓ (look_standing hA targetType target hpend)
    fun standing w1 h1 ⟨hlock, hactive⟩ => ?_
  have hpend1 : w1.sess.pend = id := h1.pend.trans hpend
  cases standing with
  | false =>
      refine Body.ret hΓ (.untouched fun s => ?_)
      rw [hpend1]
      exact Untouched.refl s
  | true =>
      refine Body.look hΓ (look_clockTimestamp anyError_faults) fun now w2 h2 hnow => ?_
      refine body_evaluateLocked hA hshow none (h2.held hlock) (Nat.le_of_eq hnow)
        ((hactive rfl).near hA hlock h2.toNear) (fun s => ?_) ?_
      · rw [h2.pend, hpend1]
        exact Untouched.refl s
      · rw [h2.frames, h1.frames]
        exact hopen

/-- **SPECIFICATION** of the transaction of `apply_sanction`. -/
theorem body_applySanction (hA : Abides p Γ) (hshow : ShowsSanctions Γ) (actor : Actor)
    (targetType : TargetType) (target : Nat) (reason : String) (version : Int)
    (reauthenticatedAt : Option Time) (hpend : w.sess.pend = id) (hopen : w.sess.frames ≠ []) :
    Body Γ (applySanctionBody actor targetType target reason version reauthenticatedAt) w
      (fun _ w' => Moderated Γ targetType target w'.sess.held w'.db w'.sess.pend) anyError := by
  have hΓ := hA.lawful
  refine Body.look hΓ (look_clockTimestamp anyError_faults) fun now w1 h1 hnow => ?_
  refine Body.look (P := fun _ _ => True) hΓ ?_ fun _ w2 h2 _ => ?_
  · cases reauthenticatedAt with
    | none => exact Look.raise hΓ trivial
    | some t => exact (look_raiseIf hΓ fun _ => trivial).mono fun _ _ _ _ => trivial
  refine Body.look hΓ (look_lockSanctionTarget hΓ targetType target w2)
    fun currentVersion w3 h3 hlock => ?_
  refine Body.look (P := fun _ _ => True) hΓ (Look.bind hΓ (look_raiseIf hΓ fun _ => trivial)
    fun _ _ _ _ => Look.bind hΓ (look_fetch anyError_faults _) fun grant _ _ _ => ?_)
    fun _ w4 h4 _ => ?_
  · cases grant with
    | none => exact Look.raise hΓ trivial
    | some grant => exact Look.ret hΓ trivial
  have h04 : Still Γ w w4 := h1.trans hΓ (h2.trans hΓ (h3.trans hΓ h4))
  have hpend4 : w4.sess.pend = id := h04.pend.trans hpend
  dsimp only
  split
  · -- a stale request is audited and refused
    refine Body.bind hΓ (body_untouched hA [.adminAudit] (by decide) (fun Γ' hΓ' hp =>
      safe_audit hΓ' hp _) (by rw [h04.frames]; exact hopen))
      fun _ _ _ _ => Body.raise hΓ trivial
  · refine Body.look hΓ (look_fetch anyError_faults _) fun active w5 h5 hlook => ?_
    have hpend5 : w5.sess.pend = id := h5.pend.trans hpend4
    cases active with
    | some action =>
        refine Body.ret hΓ (.untouched fun s => ?_)
        rw [hpend5]
        exact Untouched.refl s
    | none =>
        rw [view_of_id hpend5] at hlook
        have hlock5 := h5.held (h4.held hlock)
        refine Body.look hΓ (look_sanctioning (s := w5.db) hΓ hshow hlock5 (Nat.le_refl now)
          (noneLive_of_filter hlook.symm) (hΓ.refl _ _)) fun _ w6 h6 hch => ?_
        refine Body.bind hΓ (body_createAction hA hch.lock now) fun a w7 h7 ⟨n, ha, hp7⟩ => ?_
        refine Body.bind hΓ (body_untouched hA [.adminAudit] (by decide) (fun Γ' hΓ' hp =>
          safe_audit hΓ' hp _) ?_) fun _ w8 h8 hp8 => Body.ret hΓ ?_
        · rw [h7.frames, h6.frames, h5.frames, h04.frames]
          exact hopen
        · refine .sanctioned n now (hch.near hΓ (h7.toNear.trans hΓ h8.toNear)) fun s => ?_
          have hs := hp8 s
          rw [hp7, h6.pend, hpend5, ha] at hs
          exact hs

/-! ## Scopes -/

/-- What `revoke_scope` does to these tables: nothing, or a bump of a locked user, which
    was observed under the lock. -/
inductive ScopeEnd (Γ : Ctx Store Lock Exn Obs) (held : List Lock) (s0 : Store)
    (f : Store → Store) : Prop where
  | untouched : (∀ s, Untouched s (f s)) → ScopeEnd Γ held s0 f
  | bumped (n : Nat) : .row .user n ∈ held →
      (∃ now s1, Γ.given (.bumping n) now s1 ∧ Γ.rely [.row .user n] s1 s0) →
      (∀ s, Untouched (bumpAuthEpoch n s) (f s)) → ScopeEnd Γ held s0 f

/-- The pending change of the scopes stays allowed. -/
theorem ScopeEnd.near {f : Store → Store} (hΓ : Lawful Γ)
    (h : ScopeEnd Γ w.sess.held w.db f) (hn : Near Γ w w') :
    ScopeEnd Γ w'.sess.held w'.db f := by
  cases h with
  | untouched h => exact .untouched h
  | bumped n hl hseen h =>
      obtain ⟨now, s1, hgiven, h1⟩ := hseen
      exact .bumped n (hn.held hl) ⟨now, s1, hgiven, hΓ.trans _ _ _ _ h1 (rely_locked hΓ hl hn)⟩ h

/-- The writes of `revoke_scope`. -/
theorem body_revokeGrant (hA : Abides p Γ)
    (hshow : ∀ n now s, Γ.given (.bumping n) now s → Γ.shown (.bumping n) now s)
    (actor : Actor) {grant : AdminScopeGrant} (reason : String) (now : Time)
    (hlock : .row .user grant.staff ∈ w.sess.held) (hpend : w.sess.pend = id)
    (hopen : w.sess.frames ≠ []) :
    Body Γ (revokeGrant actor grant reason now) w
      (fun _ w' => ScopeEnd Γ w'.sess.held w'.db w'.sess.pend) anyError := by
  have hΓ := hA.lawful
  refine Body.bind hΓ (body_updateRows hΓ anyError_faults fun held _ hlocks s =>
    hA.leave _ _ _ (respects_updateGrant (hlocks _ List.mem_cons_self) fun _ => ⟨rfl, rfl⟩))
    fun _ w1 h1 ⟨hp1, _⟩ => ?_
  have hlock1 := h1.held hlock
  refine Body.look hΓ (Look.observe fun w2 _ hgiven => hshow _ _ _ hgiven)
    fun _ w2 h2 ⟨w0, h0, hgiven, hw2⟩ => ?_
  refine Body.bind hΓ (body_updateRows hΓ anyError_faults fun held _ hlocks s =>
    hA.leave _ _ _ (respects_updateUser (f := fun u => { u with authEpoch := u.authEpoch + 1 })
      (fun _ _ => rfl) (hlocks _ List.mem_cons_self))) fun _ w3 h3 ⟨hp3, _⟩ => ?_
  refine Body.look hΓ (look_getRow hΓ anyError_faults _ _ trivial) fun stored w4 h4 _ => ?_
  refine Body.bind hΓ (body_untouched hA [.adminAudit] (by decide) (fun Γ' hΓ' hp =>
    safe_audit hΓ' hp _) ?_) fun _ w5 h5 hp5 => Body.ret hΓ ?_
  · rw [h4.frames, h3.frames, h2.frames, h1.frames]
    exact hopen
  have h25 : Near Γ w2 w5 := h3.toNear.trans hΓ (h4.toNear.trans hΓ h5.toNear)
  refine .bumped grant.staff (h25.held (h2.held hlock1)) ⟨w0.now, w0.db, hgiven, ?_⟩ fun s => ?_
  · have hrely := rely_locked hΓ (h2.held hlock1) h25
    rw [hw2] at hrely
    exact hrely
  · have hs := hp5 s
    rw [h4.pend, hp3, h2.pend, hp1, hpend] at hs
    exact ⟨hs.actions, hs.releases, hs.users, hs.tasks, hs.effects⟩

/-- **SPECIFICATION** of the transaction of `revoke_scope`. -/
theorem body_revokeScope (hA : Abides p Γ)
    (hshow : ∀ n now s, Γ.given (.bumping n) now s → Γ.shown (.bumping n) now s)
    (actor : Actor) (grant : Nat) (reason : String) (version : Int)
    (reauthenticatedAt : Option Time) (hpend : w.sess.pend = id) (hopen : w.sess.frames ≠ []) :
    Body Γ (revokeScopeBody actor grant reason version reauthenticatedAt) w
      (fun _ w' => ScopeEnd Γ w'.sess.held w'.db w'.sess.pend) anyError := by
  have hΓ := hA.lawful
  refine Body.look hΓ (look_clockTimestamp anyError_faults) fun now w1 h1 _ => ?_
  refine Body.look (P := fun _ _ => True) hΓ ?_ fun _ w2 h2 _ => ?_
  · cases reauthenticatedAt with
    | none => exact Look.raise hΓ trivial
    | some t => exact (look_raiseIf hΓ fun _ => trivial).mono fun _ _ _ _ => trivial
  refine Body.look hΓ (look_raiseIf hΓ fun _ => trivial) fun _ w3 h3 _ => ?_
  refine Body.look (P := fun row w' => .row .user row.staff ∈ w'.sess.held) hΓ
    (Look.tryCatch (G := anyError) hΓ (Look.bind hΓ (look_getForUpdate hΓ anyError_faults
      _ _ _ _ trivial) fun row w4 _ _ => ?_) fun e _ _ _ => ?_) fun row w4 h4 hlock => ?_
  · exact Look.bind hΓ (Look.acquire anyError_faults _) fun _ _ _ hl => Look.ret hΓ hl
  · split <;> exact Look.raise hΓ trivial
  refine Body.look hΓ (look_raiseIf hΓ fun _ => trivial) fun _ w5 h5 _ => ?_
  have h05 : Still Γ w w5 := h1.trans hΓ (h2.trans hΓ (h3.trans hΓ (h4.trans hΓ h5)))
  have hpend5 : w5.sess.pend = id := h05.pend.trans hpend
  have hopen5 : w5.sess.frames ≠ [] := by
    rw [h05.frames]
    exact hopen
  split
  · refine Body.bind hΓ (body_untouched hA [.adminAudit] (by decide) (fun Γ' hΓ' hp =>
      safe_audit hΓ' hp _) hopen5) fun _ _ _ _ => Body.raise hΓ trivial
  · split
    · refine Body.ret hΓ (.untouched fun s => ?_)
      rw [hpend5]
      exact Untouched.refl s
    · exact body_revokeGrant hA hshow actor reason now (h5.held hlock) hpend5 hopen5

end Market
