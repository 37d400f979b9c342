import Marketplace.SessionSpecs
import Marketplace.UserRuns
import Marketplace.WithdrawalReplays

/-! # Sessions of an epoch that is over

    A session is of the epoch that its user had when it was started.  A password change
    advances the epoch, a withdrawal does too and withdraws the user; both leave the row
    index of other sessions as it is.  A request that begins after that is admitted by
    no session of the user of that epoch or an earlier one, whatever its key. -/

namespace Market

open TxnProgram TxnInterleaving TxnLogic TxnProtection TxnBody TxnFrames TxnInvariants
  TxnSoundness

variable {p : Platform} {Γ : Ctx Store Lock Exn Obs} {w w' : World Store Lock Obs}
  {held : List Lock} {s s' : Store} {user epoch : Nat}

/-- The sessions of the user are over, up to the epoch. -/
structure Over (user epoch : Nat) (s : Store) : Prop where
  keys : UserKeys s
  row : ∃ v ∈ s.users, v.pk = user ∧ (epoch < v.authEpoch ∨ v.withdrawnAt.isSome)

/-- The user has reached the epoch. -/
structure InEpoch (user epoch : Nat) (s : Store) : Prop where
  keys : UserKeys s
  row : ∃ v ∈ s.users, v.pk = user ∧ epoch ≤ v.authEpoch

theorem UsersStep.userKeys (h : UsersStep s s') (hk : UserKeys s) : UserKeys s' := by
  rw [UserKeys, h.keys]
  exact hk

theorem Over.step (h : Over user epoch s) (hs : UsersStep s s') : Over user epoch s' := by
  obtain ⟨v, hv, hpk, hover⟩ := h.row
  obtain ⟨v', hv', hpk', hforward⟩ := hs.forward h.keys v hv
  refine ⟨hs.userKeys h.keys, v', hv', hpk'.trans hpk, ?_⟩
  rcases hover with hepoch | hwithdrawn
  · exact Or.inl (Nat.lt_of_lt_of_le hepoch hforward.epoch)
  · exact Or.inr (hforward.withdrawn hwithdrawn)

theorem InEpoch.step (h : InEpoch user epoch s) (hs : UsersStep s s') :
    InEpoch user epoch s' := by
  obtain ⟨v, hv, hpk, hepoch⟩ := h.row
  obtain ⟨v', hv', hpk', hforward⟩ := hs.forward h.keys v hv
  exact ⟨hs.userKeys h.keys, v', hv', hpk'.trans hpk, Nat.le_trans hepoch hforward.epoch⟩

/-- A bump ends the sessions of the epoch. -/
theorem InEpoch.bump (h : InEpoch user epoch s) : Over user epoch (bumpAuthEpoch user s) := by
  obtain ⟨v, hv, hpk, hepoch⟩ := h.row
  refine ⟨(usersStep_bump user s).userKeys h.keys, _, List.mem_map_of_mem hv, ?_⟩
  rw [if_pos hpk]
  exact ⟨hpk, Or.inl (Nat.lt_succ_of_le hepoch)⟩

/-! ## The context -/

/-- The context of sessions whose commits take the users forward. -/
def epochCtx (p : Platform) : Ctx Store Lock Exn Obs :=
  along (market p ⟨fun _ _ => True, fun _ _ _ => True⟩ SavesFresh fun _ _ _ => True) UsersStep

theorem epochCtx_abides (p : Platform) : Abides p (epochCtx p) where
  lawful := along_lawful (market_lawful p ⟨fun _ => trivial, fun _ _ _ _ _ => trivial⟩ _ _)
    usersStep_composes
  rely _ _ _ h := h.1
  leave _ _ _ h := ⟨h, trivial⟩
  deferred := rfl

theorem epochCtx_guar (hleave : (epochCtx p).leave held s s') (h : UsersStep s s') :
    (epochCtx p).guar held s s' := ⟨⟨hleave.1, hleave.2, trivial⟩, h⟩

/-- What goes on in the context of accounts goes on in this one. -/
theorem epochCtx_joins (p : Platform) : Joins (userCtx p) (userCtx p) (epochCtx p) where
  deferred := ⟨rfl, rfl⟩
  fault _ h := ⟨h, h⟩
  rely _ _ _ h := ⟨h.1, h.1⟩
  guar _ _ _ h _ := ⟨⟨h.1, h.2.1, trivial⟩, h.2.2⟩
  given _ _ _ h := ⟨h, h⟩
  shown _ _ _ h _ := h

theorem epochCtx_sessions (p : Platform) : MayRunSessions (epochCtx p) := by
  refine mayRunSessions_of_frame (epochCtx_abides p) (fun _ _ _ _ _ => trivial)
    usersStep_composes (fun held f hf s => ?_) fun _ _ _ => epochCtx_guar
  cases hf with
  | bumped n _ => exact usersStep_bump n s
  | _ => exact .of_same rfl

theorem over_steady (p : Platform) (user epoch : Nat) :
    Steady (epochCtx p) (Over user epoch) := fun _ _ _ hrely h => h.step hrely.2

theorem inEpoch_steady (p : Platform) (user epoch : Nat) :
    Steady (epochCtx p) (InEpoch user epoch) := fun _ _ _ hrely h => h.step hrely.2

/-- Whatever a session runs, sessions that are over stay over. -/
theorem Top.over {α : Type} {m : M α} (h : Top (epochCtx p) m) (hi : Idle w)
    (hover : Over user epoch w.db) :
    wp (epochCtx p) m (fun _ w' => Idle w' ∧ Over user epoch w'.db) w :=
  wp_invariant (over_steady p user epoch) (fun _ _ _ hg h => h.step hg.2) hover (h w hi)

/-- Whatever a session runs, the user does not leave the epoch. -/
theorem Top.inEpoch {α : Type} {m : M α} (h : Top (epochCtx p) m) (hi : Idle w)
    (hepoch : InEpoch user epoch w.db) :
    wp (epochCtx p) m (fun _ w' => Idle w' ∧ InEpoch user epoch w'.db) w :=
  wp_invariant (inEpoch_steady p user epoch) (fun _ _ _ hg h => h.step hg.2) hepoch (h w hi)

/-! ## A request of such a session -/

/-- The epoch of the session of a request is not later. -/
def SessionRequest.Until (r : SessionRequest) (epoch : Nat) : Prop :=
  ∀ n, r.sessionEpoch = some n → n ≤ (epoch : Int)

/-- A valid session is of the epoch of its user. -/
theorem wp_validateRequest_epoch (hmay : MayRunSessions Γ) (r : SessionRequest) (user : User)
    (hi : Idle w) : wp Γ (validateRequest r user) (fun res w' => Idle w' ∧
      (res = .ok true → r.sessionEpoch = some (user.authEpoch : Int))) w := by
  by_cases hepoch : r.sessionEpoch = some (user.authEpoch : Int)
  · exact wp_mono (fun _ _ hidle => ⟨hidle, fun _ => hepoch⟩) (top_validateRequest hmay r user w hi)
  · rw [validateRequest, if_pos (bne_iff_ne.mpr hepoch)]
    refine ⟨hi, fun hc => ?_⟩
    cases hc

/-- A user that is available is not withdrawn. -/
theorem wp_accountAvailable (user : User) (hi : Idle w) :
    wp Γ (accountAvailable user) (fun res w' => Idle w' ∧
      (res = .ok true → user.withdrawnAt = none)) w := by
  by_cases hactive : effectiveAccountStatus user = .active
  · refine wp_mono (fun _ _ hidle => ⟨hidle, fun _ => ?_⟩) (top_accountAvailable user w hi)
    cases hwithdrawn : user.withdrawnAt with
    | none => rfl
    | some at' =>
        simp [effectiveAccountStatus, hwithdrawn] at hactive
  · rw [accountAvailable, if_neg (by simp [hactive])]
    refine ⟨hi, fun hc => ?_⟩
    cases hc

/-- **FENCE**: a request of a session that is over is not admitted. -/
theorem wp_enforce_over (r : SessionRequest) (hr : r.Until epoch) (hi : Idle w)
    (h : Over r.user epoch w.db) :
    wp (epochCtx p) (enforceHttpUserStatus r) (fun res w' => Idle w' ∧
      ∀ u, res ≠ .ok (.admitted u)) w := by
  have hmay : MayRunSessions (epochCtx p) := epochCtx_sessions p
  have hsteady := over_steady p r.user epoch
  have hnone : ∀ (e : Exn) (u : User), Except.error e ≠ .ok (Admission.admitted u) := by
    rintro e u ⟨⟩
  -- the row of the user that the request loads is as late as the one that is there now
  have hrow : wp (epochCtx p) (requestAccount r) (fun res w' => Idle w' ∧ ∀ u, res = .ok (some u) →
      epoch < u.authEpoch ∨ u.withdrawnAt.isSome) w := by
    refine wp_bind (wp_mono ?_ (wp_read hsteady hi h))
    rintro (e | found) w1 ⟨hi1, h1, hfound⟩
    · refine ⟨hi1, ?_⟩
      rintro u ⟨⟩
    -- the session has a user only if the row of its key is there
    have hfound := hfound found rfl
    cases found with
    | none =>
        refine ⟨hi1, ?_⟩
        rintro u ⟨⟩
    | some user =>
        show wp _ (if _ then _ else _) _ _
        split
        · refine ⟨hi1, ?_⟩
          rintro u ⟨⟩
          have hmatch := List.find?_some hfound.symm
          rw [Bool.and_eq_true, beq_iff_eq] at hmatch
          obtain ⟨v, hv, hpk, hover⟩ := h1.row
          rw [h1.keys.eq (List.mem_of_find?_eq_some hfound.symm) hv (hmatch.1.trans hpk.symm)]
          exact hover
        · refine wp_bind (wp_mono ?_ (top_flushSession hmay _ w1 hi1))
          rintro (e | _) w2 hi2
          · refine ⟨hi2, ?_⟩
            rintro u ⟨⟩
          · refine ⟨hi2, ?_⟩
            rintro u ⟨⟩
  refine wp_bind (wp_mono ?_ hrow)
  rintro (e | account) w1 ⟨hi1, haccount⟩
  · exact ⟨hi1, hnone e⟩
  cases account with
  | none =>
      refine ⟨hi1, ?_⟩
      rintro u ⟨⟩
  | some user =>
      refine wp_bind (wp_bind (wp_mono ?_ (wp_validateRequest_epoch hmay r user hi1)))
      rintro (e | valid) w2 ⟨hi2, hvalid⟩
      · exact ⟨hi2, hnone e⟩
      -- a session that passes the epoch check is of a withdrawn user
      have hrest : wp (epochCtx p) (if valid then accountAvailable user else return false)
          (fun res w' => Idle w' ∧ res ≠ .ok true) w2 := by
        cases valid with
        | false =>
            refine ⟨hi2, ?_⟩
            rintro ⟨⟩
        | true =>
            refine wp_mono ?_ (wp_accountAvailable user hi2)
            rintro res w3 ⟨hi3, havailable⟩
            refine ⟨hi3, fun hres => ?_⟩
            rcases haccount user rfl with hlater | hwithdrawn
            · have hsession := hr _ (hvalid rfl)
              omega
            · rw [havailable hres] at hwithdrawn
              cases hwithdrawn
      refine wp_mono ?_ hrest
      rintro (e | available) w3 ⟨hi3, hno⟩
      · exact ⟨hi3, hnone e⟩
      cases available with
      | true => exact absurd rfl hno
      | false =>
          refine wp_bind (wp_mono ?_ (top_sessionLogout hmay _ w3 hi3))
          rintro (e | _) w4 hi4
          · exact ⟨hi4, hnone e⟩
          · refine ⟨hi4, ?_⟩
            rintro u ⟨⟩

/-! ## What ends the sessions of a user -/

/-- The user that `requestUser` returns is in the epoch of the session. -/
theorem wp_requestUser_epoch (r : Request) (hi : Idle w) (h : UserKeys w.db) :
    wp (epochCtx p) (requestUser r) (fun res w' => Idle w' ∧ ∀ u, res = .ok u →
      u.pk = r.user ∧ Loaded u w'.db ∧ InEpoch r.user r.sessionEpoch w'.db) w := by
  have hA := epochCtx_abides p
  have hsteady : Steady (epochCtx p) UserKeys := fun _ _ _ hrely hk => hrely.2.userKeys hk
  refine wp_bind (wp_mono ?_ (wp_read hsteady hi h))
  rintro (e | found) w1 ⟨hi1, h1, hfound⟩
  · refine ⟨hi1, ?_⟩
    rintro u ⟨⟩
  have hfound := hfound found rfl
  cases found with
  | none =>
      refine ⟨hi1, ?_⟩
      rintro u ⟨⟩
  | some user =>
      have hmem : user ∈ w1.db.users := List.mem_of_find?_eq_some hfound.symm
      have hmatch := List.find?_some hfound.symm
      rw [Bool.and_eq_true, beq_iff_eq] at hmatch
      show wp _ (if _ then _ else _) _ _
      split
      · refine ⟨hi1, ?_⟩
        rintro u ⟨⟩
      · rename_i hok
        simp only [Bool.or_eq_true, not_or, bne_iff_ne, ne_eq, not_not, Bool.not_eq_true,
          Option.isSome_eq_false_iff, Option.isNone_iff_eq_none] at hok
        have hepoch : InEpoch r.user r.sessionEpoch w1.db :=
          ⟨h1, user, hmem, hmatch.1, Nat.le_of_eq hok.1⟩
        have hloaded : Loaded user w1.db := ⟨List.mem_map_of_mem hmem, hok.2⟩
        have hkept : Steady (epochCtx p)
            fun d => InEpoch r.user r.sessionEpoch d ∧ Loaded user d :=
          fun _ _ _ hrely hI => ⟨hI.1.step hrely.2, hI.2.keeps (hA.rely _ _ _ hrely).1⟩
        -- the status is read in a statement of its own
        refine wp_bind (wp_mono ?_ (wp_invariant hkept
          (fun _ _ _ hg hI => ⟨hI.1.step hg.2, hI.2.keeps hg.1.1.1⟩) ⟨hepoch, hloaded⟩
          ((Top.bind (Top.select _) fun _ => Top.ret _ : Top (epochCtx p) _) w1 hi1)))
        rintro (e | status) w2 ⟨hi2, hepoch2, hloaded2⟩
        · refine ⟨hi2, ?_⟩
          rintro u ⟨⟩
        · show wp _ (if _ then _ else _) _ _
          split
          · refine ⟨hi2, ?_⟩
            rintro u ⟨⟩
          · refine ⟨hi2, ?_⟩
            rintro u ⟨⟩
            exact ⟨hmatch.1, hloaded2, hepoch2⟩

/-- **SPECIFICATION** of a password change: it ends the sessions of the epoch. -/
theorem wp_passwordChange_over (accepts : User → String → Bool) (r : Request)
    (old new1 new2 : String) (hi : Idle w) (h : UserKeys w.db) :
    wp (epochCtx p) (passwordChange accepts r old new1 new2) (fun res w' => Idle w' ∧
      ∀ a, res = .ok a → Over r.user r.sessionEpoch w'.db) w := by
  have hA := epochCtx_abides p
  have hmay : MayRunSessions (epochCtx p) := epochCtx_sessions p
  have hnone : ∀ (e : Exn) (a : Unit), Except.error e ≠ .ok a := by
    rintro e a ⟨⟩
  refine wp_bind (wp_mono ?_ (wp_requestUser_epoch r hi h))
  rintro (e | user) w1 ⟨hi1, huser⟩
  · exact ⟨hi1, fun a hc => absurd hc (hnone e a)⟩
  obtain ⟨hpk, hloaded, hepoch⟩ := huser user rfl
  rw [onOk_ok]
  split
  swap
  · exact ⟨hi1, fun a hc => absurd hc (hnone _ a)⟩
  -- the row is saved with the epoch that it was loaded with, in the same epoch
  have hsaved : wp (epochCtx p) (saveUser { user with password := some new1 })
      (fun _ w' => Idle w') w1 := by
    have hnew : Loaded { user with password := some new1 } w1.db :=
      ⟨hloaded.stored, hloaded.active⟩
    have hready := wp_saveUser (p := p) hi1 hnew
    exact wp_mono (fun _ _ hq => hq.1) (wp_both (epochCtx_joins p) hready hready)
  refine wp_bind (wp_mono ?_ (wp_invariant (inEpoch_steady p r.user r.sessionEpoch)
    (fun _ _ _ hg h => h.step hg.2) hepoch hsaved))
  rintro (e | _) w2 ⟨hi2, hepoch2⟩
  · exact ⟨hi2, fun a hc => absurd hc (hnone e a)⟩
  refine wp_bind (wp_bind (wp_mono ?_ (Top.inEpoch (top_revoke hmay _) hi2 hepoch2)))
  rintro (e | _) w3 ⟨hi3, hepoch3⟩
  · exact ⟨hi3, fun a hc => absurd hc (hnone e a)⟩
  refine wp_bind (wp_settled hA.lawful (inEpoch_steady p r.user r.sessionEpoch) hi3 hepoch3
    (P := fun _ w' => w'.sess.pend = bumpAuthEpoch r.user) (fun w' hpend _ _ => ?_)
    (fun _ _ _ hp he => ?_)
    (fun e w4 hi4 _ _ => ⟨hi4, fun a hc => absurd hc (hnone e a)⟩) ?_)
  · refine (body_updateRows hA.lawful anyError_faults fun held _ hlocks s => hA.leave _ _ _
      ((SessionWrite.bumped user.pk (hlocks _ List.mem_cons_self)).respects s)).mono
      fun _ w4 _ hp => ?_
    rw [hp.1, hpend, ← hpk]
    rfl
  · rw [he.sess]
    exact hp
  · intro _ w4 hepoch4 _ hleave hp
    have hview : w4.view = bumpAuthEpoch r.user w4.db := by rw [World.view, hp]
    rw [hview] at hleave ⊢
    refine ⟨epochCtx_guar hleave (usersStep_bump _ _), ?_⟩
    have hover : Over r.user r.sessionEpoch w4.publish.db := by
      show Over _ _ w4.view
      rw [hview]
      exact hepoch4.bump
    refine wp_mono ?_ (Top.over (top_afterBump hmay _) (publish_idle w4) hover)
    rintro (e | row) w5 ⟨hi5, hover5⟩
    · exact ⟨hi5, fun a hc => absurd hc (hnone e a)⟩
    · exact ⟨hi5, fun _ _ => hover5⟩

/-- **SPECIFICATION** of a withdrawal: it ends all sessions of the user. -/
theorem wp_withdrawAccount_over (user : Nat) (password : String) (hi : Idle w)
    (h : UserKeys w.db) :
    wp (epochCtx p) (withdrawAccount user password) (fun res w' => Idle w' ∧
      ∀ a, res = .ok a → ∀ epoch, Over user epoch w'.db) w := by
  have hsteady : Steady (epochCtx p) UserKeys := fun _ _ _ hrely hk => hrely.2.userKeys hk
  refine wp_mono ?_ (wp_invariant hsteady (fun _ _ _ hg hk => hg.2.userKeys hk) h
    (wp_withdrawAccount (epochCtx_abides p) user password hi
      (Q := fun res w' => Idle w' ∧ ∀ a : WithdrawalResult, res = .ok a →
        ∃ v ∈ w'.db.users, v.pk = user ∧ v.withdrawnAt.isSome)
      (fun r w2 _ hleave hdone => ⟨epochCtx_guar hleave hdone.usersStep, publish_idle w2,
        fun a _ => hdone.registered.withdrawn⟩) fun e w3 hidle _ => ⟨hidle, ?_⟩))
  · rintro res w' ⟨⟨hi', hrow⟩, hk⟩
    refine ⟨hi', fun a ha epoch => ?_⟩
    obtain ⟨v, hv, hpk, hwithdrawn⟩ := hrow a ha
    exact ⟨hk, v, hv, hpk, Or.inr hwithdrawn⟩
  · rintro a ⟨⟩

end Market
