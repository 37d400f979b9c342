import Marketplace.SafeManagement
import Marketplace.TxnSchedule
import Marketplace.WithdrawalSpecs

/-! # Account authority in every run

    `auth_epoch`, `withdrawn_at`, `is_active` and the password of a user, written by
    withdrawals and epoch bumps under the lock of the row, and by requests that write
    a whole row back which they loaded before.  They never go backwards in a run whose
    whole-row writes find a row that is not withdrawn and of no later epoch. -/

namespace Market

open TxnProgram TxnInterleaving TxnLogic TxnProtection TxnSoundness TxnBody TxnFrames
  TxnSchedule

variable {p : Platform} {Γ : Ctx Store Lock Exn Obs} {w w' : World Store Lock Obs}
  {s s' : Store}

/-! ## Forward -/

/-- A withdrawn user is inactive and has no usable password. -/
def User.Retired (u : User) : Prop :=
  u.withdrawnAt.isSome → u.isActive = false ∧ u.password = none

/-- From one row of a user to a later one. -/
structure User.Forward (u u' : User) : Prop where
  epoch : u.authEpoch ≤ u'.authEpoch
  withdrawn : u.withdrawnAt.isSome → u'.withdrawnAt.isSome
  retired : u.Retired → u'.Retired

theorem User.Forward.refl (u : User) : u.Forward u := ⟨Nat.le_refl _, id, id⟩

/-- A user goes forward again and again. -/
theorem User.Forward.trans {u u' u'' : User} (h : u.Forward u') (h' : u'.Forward u'') :
    u.Forward u'' :=
  ⟨Nat.le_trans h.epoch h'.epoch, h'.withdrawn ∘ h.withdrawn, h'.retired ∘ h.retired⟩

/-- Every user goes forward. -/
def UsersForward (s s' : Store) : Prop :=
  ∀ u ∈ s.users, ∃ u' ∈ s'.users, u'.pk = u.pk ∧ u.Forward u'

theorem UsersForward.refl (s : Store) : UsersForward s s :=
  fun u hu => ⟨u, hu, rfl, User.Forward.refl u⟩

/-- Users go forward step by step. -/
theorem UsersForward.trans {s s' s'' : Store} (h : UsersForward s s')
    (h' : UsersForward s' s'') : UsersForward s s'' := by
  intro u hu
  obtain ⟨v, hv, hpk, hf⟩ := h u hu
  obtain ⟨x, hx, hpk', hf'⟩ := h' v hv
  exact ⟨x, hx, hpk'.trans hpk, hf.trans hf'⟩

/-- Where no user is written all go forward. -/
theorem UsersForward.of_same (h : s'.users = s.users) : UsersForward s s' := by
  intro u hu
  refine ⟨u, ?_, rfl, User.Forward.refl u⟩
  rw [h]
  exact hu

/-- The primary key of the users. -/
def UserKeys (s : Store) : Prop := (s.users.map (·.pk)).Nodup

instance (s : Store) : Decidable (UserKeys s) :=
  inferInstanceAs (Decidable (s.users.map (·.pk)).Nodup)

/-- What a commit does to the users. -/
structure UsersStep (s s' : Store) : Prop where
  keys : s'.users.map (·.pk) = s.users.map (·.pk)
  forward : UserKeys s → UsersForward s s'

/-- Where no user is written there is a step. -/
theorem UsersStep.of_same (h : s'.users = s.users) : UsersStep s s' :=
  ⟨by rw [h], fun _ => UsersForward.of_same h⟩

/-- Steps compose. -/
theorem usersStep_composes : Composes UsersStep where
  refl s := UsersStep.of_same rfl
  trans s s' s'' h h' := by
    refine ⟨h'.keys.trans h.keys, fun hk => (h.forward hk).trans (h'.forward ?_)⟩
    rw [UserKeys, h.keys]
    exact hk

/-- Rewriting the one row of a key, which goes forward. -/
theorem usersStep_updateUser {n : Nat} {f : User → User}
    (hpk : ∀ v, v.pk = n → (f v).pk = v.pk)
    (hu : UserKeys s → ∀ v ∈ s.users, v.pk = n → v.Forward (f v)) :
    UsersStep s (updateUser n f s) := by
  constructor
  · show (s.users.map fun v => if v.pk = n then f v else v).map (·.pk) = _
    rw [List.map_map]
    refine List.map_congr_left fun v _ => ?_
    rw [Function.comp_apply]
    split
    · rename_i h
      exact hpk v h
    · rfl
  · intro hk v hv
    by_cases h : v.pk = n
    · refine ⟨f v, List.mem_map.mpr ⟨v, hv, if_pos h⟩, hpk v h, hu hk v hv h⟩
    · exact ⟨v, List.mem_map.mpr ⟨v, hv, if_neg h⟩, rfl, User.Forward.refl v⟩

/-- To raise an epoch is a step. -/
theorem usersStep_bump (n : Nat) (s : Store) : UsersStep s (bumpAuthEpoch n s) := by
  exact usersStep_updateUser (fun _ _ => rfl) fun _ v _ _ => ⟨Nat.le_succ _, id, id⟩

/-- So is every write but a withdrawal and a saved profile. -/
theorem usersStep_licensed {k : WriteKind} (hk : k ∉ [WriteKind.withdrawal, .profile])
    {held : List Lock} {f : Store → Store} (h : Licensed held k f) (s : Store) :
    UsersStep s (f s) := by
  cases h with
  | withdrawal _ _ _ => exact absurd (by decide) hk
  | profile _ _ => exact absurd (by decide) hk
  | bump n _ => exact usersStep_bump n s
  | _ => exact UsersStep.of_same rfl

/-! ## Withdrawals -/

/-- A row of a key is the row of that key. -/
theorem UserKeys.eq (hk : UserKeys s) {u v : User} (hu : u ∈ s.users) (hv : v ∈ s.users)
    (h : u.pk = v.pk) : u = v := List.inj_on_of_nodup_map hk hu hv h

/-- A withdrawal takes the users forward. -/
theorem WithdrawalDone.usersStep {user : Nat} {r : WithdrawalResult}
    (h : WithdrawalDone Γ user r w) : UsersStep w.db w.view := by
  cases h with
  | replayed _ h =>
      refine UsersStep.of_same ?_
      rw [World.view, h.pend]
      rfl
  | withdrawn u now scope favorites notifications _ h =>
      have hset : UsersStep w.db (setWithdrawn u now w.db) := by
        refine usersStep_updateUser (fun _ _ => rfl) fun hk v hv hpk => ?_
        rw [hk.eq hv h.row hpk]
        refine ⟨Nat.le_succ _, fun hw => ?_, fun _ _ => ⟨rfl, rfl⟩⟩
        rw [h.active] at hw
        cases hw
      have hsame : UsersStep (setWithdrawn u now w.db) w.view :=
        UsersStep.of_same (h.writes.users w.db)
      exact usersStep_composes.trans _ _ _ hset hsame

/-! ## Whole-row writes -/

/-- The row that a whole-row write finds is not withdrawn, and of no later epoch than
    the one that was loaded. -/
def FreshSave (loaded : User) (s : Store) : Prop :=
  ∀ u ∈ s.users, u.pk = loaded.pk → u.withdrawnAt = none ∧ u.authEpoch ≤ loaded.authEpoch

/-- Every whole-row write finds such a row. -/
def SavesFresh (v : Obs) (_ : Time) (s : Store) : Prop :=
  match v with
  | .savingUser loaded => FreshSave loaded s
  | _ => True

instance (loaded : User) (s : Store) : Decidable (FreshSave loaded s) :=
  inferInstanceAs (Decidable (∀ u ∈ s.users, u.pk = loaded.pk → _ ∧ _))

instance (v : Obs) (now : Time) (s : Store) : Decidable (SavesFresh v now s) :=
  match v with
  | .savingUser loaded => inferInstanceAs (Decidable (FreshSave loaded s))
  | .sanctioning _ _ _ _ => isTrue trivial
  | .reserving _ _ _ _ => isTrue trivial
  | .listing _ => isTrue trivial
  | .bumping _ => isTrue trivial
  | .ending _ _ => isTrue trivial
  | .allocating _ => isTrue trivial
  | .deciding _ => isTrue trivial
  | .paged _ _ _ => isTrue trivial
  | .editing _ => isTrue trivial
  | .savingFile _ => isTrue trivial
  | .deletingFile _ => isTrue trivial

/-- The context of a session that works on accounts. -/
def userCtx (p : Platform) : Ctx Store Lock Exn Obs :=
  market p ⟨fun _ _ => True, fun _ => UsersStep⟩ SavesFresh (fun _ _ _ => True)

theorem userCtx_abides (p : Platform) : Abides p (userCtx p) :=
  market_abides ⟨fun _ => trivial, fun _ _ _ _ _ => trivial⟩ fun _ _ => trivial

/-- The row was loaded from the store, and was not withdrawn then. -/
structure Loaded (u : User) (s : Store) : Prop where
  stored : u.pk ∈ s.users.map User.identity
  active : u.withdrawnAt = none

/-- A user that was loaded stays one of the users. -/
theorem Loaded.keeps {u : User} (h : Loaded u s) (hk : Keeps s s') : Loaded u s' :=
  ⟨hk.users.subset h.stored, h.active⟩

/-- A whole row is about to be written over a locked one. -/
structure SaveReady (held : List Lock) (s : Store) (loaded : User) : Prop where
  active : loaded.withdrawnAt = none
  row : ∃ u ∈ s.users, u.pk = loaded.pk ∧ u.withdrawnAt = none ∧
    u.authEpoch ≤ loaded.authEpoch
  lock : .row .user loaded.pk ∈ held

/-- A row that is to be saved stays locked. -/
theorem SaveReady.near {loaded : User} (hA : Abides p Γ)
    (h : SaveReady w.sess.held w.db loaded) (hn : Near Γ w w') :
    SaveReady w'.sess.held w'.db loaded := by
  obtain ⟨u, hu, hpk, hfresh⟩ := h.row
  exact ⟨h.active, ⟨u, (hA.same hn h.lock).1 u hu hpk, hpk, hfresh⟩, hn.held h.lock⟩

/-- To save a current row is a step. -/
theorem SaveReady.step {held : List Lock} {loaded : User} (h : SaveReady held s loaded) :
    UsersStep s (updateUser loaded.pk (fun _ => loaded) s) := by
  obtain ⟨u, hu, hpk, hnone, hepoch⟩ := h.row
  refine usersStep_updateUser (fun v hv => hv.symm) fun hk v hv hvpk => ?_
  rw [hk.eq hv hu (hvpk.trans hpk.symm)]
  refine ⟨hepoch, fun hw => ?_, fun _ hw => ?_⟩
  · rw [hnone] at hw
    exact nomatch hw
  · rw [h.active] at hw
    exact nomatch hw

/-- **SPECIFICATION** of `Model.save()`, when it finds a fresh row. -/
theorem wp_saveUser {loaded : User} (hi : Idle w) (hl : Loaded loaded w.db) :
    wp (userCtx p) (saveUser loaded) (fun _ w' => Idle w') w := by
  have hA := userCtx_abides p
  have hΓ := hA.lawful
  refine wp_transaction (F := anyError) (P := fun _ _ w1 =>
    w1.sess.pend = updateUser loaded.pk (fun _ => loaded) ∧
      SaveReady w1.sess.held w1.db loaded) hΓ hi (fun w' he => ?_) anyError_faults
    (fun _ _ _ hidle _ _ => hidle) ?_
  · have hpend : w'.begin.sess.pend = id := by
      rw [World.begin_pend, he.sess]
      exact hi.pend
    refine Body.look hΓ (Look.acquire anyError_faults _) fun _ w1 h1 hlock => ?_
    refine Body.look hΓ (Look.observe fun _ _ _ => trivial) fun _ w2 h2 hobs => ?_
    obtain ⟨w3, h3, hgiven, hw2⟩ := hobs
    -- the row that was loaded is still there, and is the one that the write finds
    have hkeep' : Keeps w'.begin.db w3.db := hA.keeps (h1.trans hΓ h3).toNear
    have hkeep : Keeps w.db w3.db := (hA.keeps he.still.toNear).trans hkeep'
    obtain ⟨u, hu, hpk⟩ := List.mem_map.mp (hl.keeps hkeep).stored
    have hfresh : FreshSave loaded w3.db := hgiven
    have hready : SaveReady w2.sess.held w2.db loaded := by
      rw [hw2]
      exact ⟨hl.active, ⟨u, hu, hpk, hfresh u hu hpk⟩, h3.held hlock⟩
    refine (Body.write hΓ anyError_faults fun s => hA.leave _ _ _ (respects_updateUser
      (fun _ hv => hv.symm) hready.lock)).mono fun _ w4 h4 hp4 => ⟨?_, hready.near hA h4.toNear⟩
    rw [hp4, h2.pend, h1.pend, hpend]
    rfl
  · intro w' _ w1 w2 _ _ ⟨hp, hready⟩ he2 hleave
    refine ⟨fun _ => ⟨⟨hleave.1, hleave.2, ?_⟩, publish_idle w2⟩, fun _ _ => trivial⟩
    have hview : w2.view = updateUser loaded.pk (fun _ => loaded) w2.db := by
      rw [World.view, he2.sess, hp]
    rw [hview]
    exact (hready.near hA he2.still.toNear).step

/-- The user of a request is loaded outside of transactions. -/
theorem top_requestUser (r : Request) : Top Γ (requestUser r) := by
  refine Top.bind (Top.select _) fun row => ?_
  cases row with
  | none => exact Top.raise _
  | some u =>
      dsimp only
      split
      · exact Top.raise _
      · refine Top.bind (Top.bind (Top.select _) fun _ => Top.ret _) fun _ => ?_
        split
        · exact Top.raise _
        · exact Top.ret _

/-- The user that is loaded was there. -/
theorem look_requestUser (hΓ : Lawful Γ) (hA : Abides p Γ) (r : Request)
    (hpend : w.sess.pend = id) :
    Look Γ (requestUser r) w (fun u w' => Loaded u w'.db) anyError := by
  refine Look.bind hΓ (look_fetch anyError_faults _) fun row w1 h1 hrow => ?_
  cases row with
  | none => exact Look.raise hΓ trivial
  | some u =>
      have hview : w1.view = w1.db := by
        rw [h1.view, hpend]
        rfl
      rw [hview] at hrow
      dsimp only
      split
      · exact Look.raise hΓ trivial
      · rename_i hok
        rw [Bool.or_eq_true, not_or] at hok
        have hloaded : Loaded u w1.db := by
          refine ⟨List.mem_map.mpr ⟨u, List.mem_of_find?_eq_some hrow.symm, rfl⟩, ?_⟩
          cases hw : u.withdrawnAt with
          | none => rfl
          | some t => exact absurd (by rw [hw]; rfl) hok.2
        refine Look.bind hΓ (look_effectiveUserStatus hΓ anyError_faults _ _) fun _ w2 h2 _ => ?_
        split
        · exact Look.raise hΓ trivial
        · exact Look.ret hΓ (hloaded.keeps (hA.keeps h2.toNear))

/-- Which is so when the request goes on. -/
theorem wp_requestUser (r : Request) (hi : Idle w) :
    wp (userCtx p) (requestUser r)
      (fun res w' => Idle w' ∧ ends (fun u w' => Loaded u w'.db) anyError res w') w :=
  Top.look (top_requestUser r) hi
    (look_requestUser (userCtx_abides p).lawful (userCtx_abides p) r hi.pend)

/-- What the other writes of the sessions do to the users. -/
theorem userCtx_mayRun {ks : List WriteKind}
    (hks : ∀ k ∈ ks, k ∉ [WriteKind.withdrawal, .profile]) :
    MayRun (userCtx p) ks := by
  have hA := userCtx_abides p
  intro β m hm
  refine mayRun_of_frame hA.lawful (fun _ _ _ _ _ => trivial) (hA.permits ks)
    usersStep_composes (fun k hk _ _ hf s => usersStep_licensed (hks k hk) hf s) ?_ m hm
  exact fun _ _ _ hleave hstep => ⟨hleave.1, hleave.2, hstep⟩

/-! ## Every run -/

/-- The operations on accounts: requests that write a whole row back, withdrawals, and
    the operations that bump the epoch. -/
inductive UserOp where
  | bioEdit (r : Request) (bio : String)
  | passwordChange (accepts : User → String → Bool) (r : Request) (old new1 new2 : String)
  | withdrawAccount (user : Nat) (password : String)
  | submitReport (reporter : Nat) (targetType : TargetType) (target : Nat)
      (context : ReportContext) (reason : String)
  | revokeScope (actor : Actor) (grant : Nat) (reason : String) (version : Int)
      (reauthenticatedAt : Option Time)

/-- The program of an operation; what it answers does not matter here. -/
def UserOp.run (p : Platform) : UserOp → M Unit
  | .bioEdit r bio => Market.bioEdit r bio
  | .passwordChange accepts r old new1 new2 =>
      Market.passwordChange accepts r old new1 new2
  | .withdrawAccount user password => do
      let _ ← Market.withdrawAccount user password
      return ()
  | .submitReport reporter targetType target context reason => do
      let _ ← Market.submitReport reporter targetType target context reason
      return ()
  | .revokeScope actor grant reason version reauthenticatedAt => do
      let _ ← Market.revokeScope p actor grant reason version reauthenticatedAt
      return ()

/-- The profile is saved as it was loaded, -/
theorem top_bioEdit (r : Request) (bio : String) : Top (userCtx p) (bioEdit r bio) := by
  intro w hi
  rw [bioEdit]
  -- the form is checked without the store: its answer is any
  generalize cleanBio bio = cleaned
  refine wp_bind (wp_mono ?_ (wp_requestUser r hi))
  rintro (e | u) w1 ⟨hi1, hend⟩
  · exact hi1
  · have hl : Loaded u w1.db := hend
    refine wp_bind ?_
    cases cleaned with
    | error e => exact hi1
    | ok value =>
        have hl' : Loaded { u with bio := value } w1.db := ⟨hl.stored, hl.active⟩
        exact wp_saveUser hi1 hl'

/-- and so is the password. -/
theorem top_passwordChange (accepts : User → String → Bool) (r : Request)
    (old new1 new2 : String) : Top (userCtx p) (passwordChange accepts r old new1 new2) := by
  intro w hi
  refine wp_bind (wp_mono ?_ (wp_requestUser r hi))
  rintro (e | u) w1 ⟨hi1, hend⟩
  · exact hi1
  · have hl : Loaded { u with password := some new1 } w1.db := ⟨hend.stored, hend.active⟩
    rw [onOk_ok]
    split
    · refine wp_bind (wp_mono ?_ (wp_saveUser hi1 hl))
      rintro (e | _) w2 hi2
      · exact hi2
      · have hmay : MayRun (userCtx p) sessionWrites := userCtx_mayRun (by decide)
        exact Top.bind (top_rotateAfterPasswordChange hmay r _) (fun _ => Top.ret _) w2 hi2
    · exact hi1

/-- A withdrawal goes forward. -/
theorem top_withdrawAccount_users (user : Nat) (password : String) :
    Top (userCtx p) (withdrawAccount user password) :=
  top_withdrawAccount_done (userCtx_abides p) user password fun _ _ hleave h =>
    ⟨hleave.1, hleave.2, h.usersStep⟩

/-- **OPERATIONS** on users. -/
theorem top_userOp (op : UserOp) : Top (userCtx p) (op.run p) := by
  cases op with
  | bioEdit r bio => exact top_bioEdit r bio
  | passwordChange accepts r old new1 new2 => exact top_passwordChange accepts r old new1 new2
  | withdrawAccount user password =>
      exact Top.bind (top_withdrawAccount_users user password) fun _ => Top.ret _
  | submitReport reporter targetType target context reason =>
      have hmay : MayRun (userCtx p) reportWrites := userCtx_mayRun (by decide)
      refine Top.bind (top_submitReport (fun reason' => hmay _ fun _ hΓ' hp hs => ?_) reason)
        fun _ => Top.ret _
      exact safe_submitReportBody hΓ' hp hs reporter targetType target context reason'
  | revokeScope actor grant reason version reauthenticatedAt =>
      have hmay : MayRun (userCtx p) [.grant, .bump, .adminAudit] := userCtx_mayRun (by decide)
      refine Top.bind (top_revokeScope (fun reason' => hmay _ fun _ hΓ' hp hs => ?_)
        (top_audit (hmay.sub (by decide))) reason) fun _ => Top.ret _
      exact safe_revokeScopeBody hΓ' hp hs actor grant reason' version reauthenticatedAt

theorem userCtx_fits {ι : Type} (p : Platform) :
    Fits (postgres fun _ _ => False) (fun _ : ι => userCtx p) :=
  market_fits p (fun _ => ⟨fun _ _ => True, fun _ => UsersStep⟩)
    (fun _ => ⟨fun _ => trivial, fun _ _ _ _ _ => trivial⟩) _ _

/-- **ACCOUNTS GO FORWARD**: in every interleaving of the operations whose whole-row
    writes find a row that is not withdrawn and of no later epoch than the one that was
    loaded, no user loses a withdrawal or an epoch from any store reached to any later
    one, and a withdrawn user stays inactive without a usable password. -/
theorem users_forward {ι : Type} [DecidableEq ι] (p : Platform) (ops : ι → UserOp)
    {s : Store} {now : Time} {c c' : Config ι Store Lock Exn Obs Unit} (hkeys : UserKeys s)
    (hr : Reached s now (fun i => (ops i).run p) c)
    (hr' : Reaches (postgres fun _ _ => False) c c')
    (hfresh : AllSee (fun _ => SavesFresh) c') : UsersForward c.db c'.db := by
  have hprog : ∀ i, Top (userCtx p) ((ops i).run p) := fun i => top_userOp (ops i)
  have hkeysc : UserKeys c.db := by
    refine top_invariant (I := UserKeys) (userCtx_fits p) hprog (fun _ _ _ h => False.elim h)
      ?_ hr (allSee_of_reaches hr' hfresh) hkeys
    intro i held s s' hk hg
    rw [UserKeys, hg.2.2.keys]
    exact hk
  have hend : UserKeys c'.db ∧ UsersForward c.db c'.db := by
    refine top_onward (I := fun d => UserKeys d ∧ UsersForward c.db d) (userCtx_fits p) hprog
      (fun _ _ _ h => False.elim h) ?_ hr hr' hfresh ⟨hkeysc, UsersForward.refl _⟩
    intro i held s s' ⟨hk, hf⟩ hg
    refine ⟨?_, hf.trans (hg.2.2.forward hk)⟩
    rw [UserKeys, hg.2.2.keys]
    exact hk
  exact hend.2

/-! ## A lost withdrawal -/

/-- A user with an empty account. -/
def emptyHanded : Store where
  users := [{ pk := 1, username := "seller_one", password := some "correct horse" }]
  accounts := [{ pk := 7, user := 1, balance := 0 }]
  ledgerAccounts := [{ pk := 5, kind := .user, mockAccount := some 7, code := "USER:1" }]

/-- The user edits the bio in one session and withdraws in another. -/
def editAndWithdraw : Fin 2 → UserOp
  | 0 => .bioEdit ⟨1, "session", 0⟩ "hello"
  | 1 => .withdrawAccount 1 "correct horse"

def editAndWithdrawStart : Config (Fin 2) Store Lock Exn Obs Unit :=
  Config.start emptyHanded 1000 fun i => (editAndWithdraw i).run plainPlatform

/-- The request loads the user, the withdrawal commits, and the request writes the whole
    row back: the withdrawal is gone, and so is the new epoch. -/
theorem withdrawal_lost : ∃ c c' : Config (Fin 2) Store Lock Exn Obs Unit,
    Reached emptyHanded 1000 (fun i => (editAndWithdraw i).run plainPlatform) c ∧
      Reaches (postgres fun _ _ => False) c c' ∧ UserKeys emptyHanded ∧
      ¬ UsersForward c.db c'.db := by
  have hplay : ((play validateBalancedJournal [.run 0 2 id, .run 1 100 id]
      editAndWithdrawStart).bind fun d =>
        (play validateBalancedJournal [.run 0 100 id] d).map fun d' =>
          (d.db.users.map (·.withdrawnAt), d'.db.users.map (·.withdrawnAt))) =
      some ([some 1000], [none]) := by decide +kernel
  obtain ⟨c, c', hr, hr', hu, hu'⟩ :=
    reaches_of_plays (D := postgres fun _ _ => False) (f := fun d => _) (g := fun d => _) hplay
  refine ⟨c, c', hr, hr', by decide, fun hforward => ?_⟩
  have hsome : some 1000 ∈ c.db.users.map (·.withdrawnAt) := by
    rw [hu]
    exact List.mem_cons_self
  obtain ⟨u, hmem, hwithdrawn⟩ := List.mem_map.mp hsome
  obtain ⟨u', hmem', -, hf⟩ := hforward u hmem
  have hnone : u'.withdrawnAt ∈ c'.db.users.map (·.withdrawnAt) :=
    List.mem_map.mpr ⟨u', hmem', rfl⟩
  rw [hu', List.mem_singleton] at hnone
  have hkept := hf.withdrawn (by rw [hwithdrawn]; rfl)
  rw [hnone] at hkept
  exact nomatch hkept

/-- The edit first, and the withdrawal after it. -/
theorem users_forward_edit_then_withdraw : ∃ c c' : Config (Fin 2) Store Lock Exn Obs Unit,
    Reached emptyHanded 1000 (fun i => (editAndWithdraw i).run plainPlatform) c ∧
      Reaches (postgres fun _ _ => False) c c' ∧
      (c.db.users.map (·.bio), c'.db.users.map (·.withdrawnAt)) =
        (["hello"], [some 1000]) ∧ UsersForward c.db c'.db := by
  have hplay : ((play validateBalancedJournal [.run 0 100 id]
      editAndWithdrawStart).bind fun d =>
        (play validateBalancedJournal [.run 1 100 id] d).map fun d' =>
          (d.db.users.map (·.bio), (d'.db.users.map (·.withdrawnAt),
            decide (∀ i, ∀ x ∈ marksOf (d'.sess i).hist, SavesFresh x.2.2 x.1 x.2.1)))) =
      some (["hello"], ([some 1000], true)) := by decide +kernel
  obtain ⟨c, c', hr, hr', hb, hw⟩ :=
    reaches_of_plays (D := postgres fun _ _ => False) (f := fun d => _) (g := fun d => _) hplay
  obtain ⟨hw, hfresh⟩ := Prod.ext_iff.mp hw
  refine ⟨c, c', hr, hr', Prod.ext hb hw, ?_⟩
  exact users_forward plainPlatform editAndWithdraw (by decide) hr hr'
    (allSee_iff.mpr (of_decide_eq_true hfresh))

end Market
