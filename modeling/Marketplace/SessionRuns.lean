import Marketplace.EpochSpecs
import Marketplace.OutboxRuns

/-! # Sessions in every run

    Requests, logins, logouts, password changes, withdrawals and the worker that deletes
    the sessions of withdrawn users run in any interleaving.  A key that was revoked is
    revoked for good and admits nobody, a key acts for one user only, and a password
    change or a withdrawal that has succeeded shuts out all older sessions of the user. -/

namespace Market

open TxnProgram TxnInterleaving TxnLogic TxnProtection TxnSoundness TxnBody TxnFrames
  TxnInvariants TxnSchedule

variable {p : Platform} {Γ : Ctx Store Lock Exn Obs} {w w' : World Store Lock Obs}
  {held : List Lock} {s s' : Store} {key : String} {user epoch : Nat}

/-- The operations on sessions, and those that end them. -/
inductive SessionOp where
  | request (r : SessionRequest)
  | login (user : User) (sessionKey : String)
  | logout (sessionKey : String)
  | passwordChange (accepts : User → String → Bool) (r : Request) (old new1 new2 : String)
  | bioEdit (r : Request) (bio : String)
  | revocation (op : RevocationOp)

/-- The program of an operation; it answers with the user that the session then acts
    for. -/
def SessionOp.run (p : Platform) : SessionOp → M (Option User)
  | .request r => do
      match ← enforceHttpUserStatus r with
      | .admitted user => return some user
      | .anonymous => return none
      | .unavailable => return none
  | .login user sessionKey => do
      let _ ← sessionStart user sessionKey
      return some user
  | .logout sessionKey => do
      sessionLogout sessionKey
      return none
  | .passwordChange accepts r old new1 new2 => do
      Market.passwordChange accepts r old new1 new2
      return none
  | .bioEdit r bio => do
      Market.bioEdit r bio
      return none
  | .revocation op => do
      let _ ← op.run p
      return none

/-- The key of the session that an operation acts with. -/
def SessionOp.sessionKey : SessionOp → Option String
  | .request r => some r.sessionKey
  | .login _ sessionKey => some sessionKey
  | _ => none

/-- An operation that succeeds ends the sessions of the user up to the epoch. -/
def SessionOp.ends : SessionOp → Nat → Nat → Prop
  | .passwordChange _ r _ _ _, user, epoch => r.user = user ∧ r.sessionEpoch = epoch
  | .revocation (.withdrawAccount user' _), user, _ => user' = user
  | _, _, _ => False

/-! ## The other operations -/

/-- The worker over its tasks is made of transactions that the context allows. -/
theorem top_processAll (h : MayRunSessions Γ) (failure : Nat → Option String)
    (tasks : List Nat) : Top Γ (processAll failure tasks) := by
  induction tasks with
  | nil => exact Top.ret _
  | cons task rest ih =>
      exact Top.bind (top_worker h failure task) fun _ => Top.bind ih fun _ => Top.ret _

/-- So is the command around it. -/
theorem top_command (h : MayRunSessions Γ) (failure : Nat → Option String) (limit : Int) :
    Top Γ (processWithdrawalRevocations failure limit) :=
  Top.bind (Top.raiseIf _ _) fun _ => Top.bind Top.fresh fun _ => Top.bind Top.fresh fun _ =>
    Top.bind (Top.select _) fun _ => Top.bind (top_processAll h failure _) fun _ => Top.ret _

/-- The kinds of writes of the moderation. -/
def moderationWrites : List WriteKind := [.grant, .adminAudit] ++ reportWrites

/-- The operations of the outbox, where their transactions may be run. -/
theorem top_outboxOp (hA : Abides p Γ) (hsessions : MayRunSessions Γ)
    (hmoderation : MayRun Γ moderationWrites)
    (hwithdraw : ∀ user password, Top Γ (withdrawAccount user password))
    (hquiet : ∀ (w : World Store Lock Obs) tasks, Γ.leave w.sess.held w.db w.view →
      w.view = { w.db with revocationTasks := tasks } → Γ.guar w.sess.held w.db w.view)
    (op : RevocationOp) : Top Γ (op.run p) := by
  cases op with
  | withdrawAccount user password => exact Top.bind (hwithdraw user password) fun _ => Top.ret _
  | prepareWithdrawalRevocation user authEpoch =>
      exact Top.bind (top_preparation hA user authEpoch fun r w hleave h _ =>
        hquiet w _ hleave (h.rest w.db)) fun _ => Top.ret _
  | processRevocationTask failure task =>
      exact Top.bind (top_worker hsessions failure task) fun _ => Top.ret _
  | processWithdrawalRevocations failure limit =>
      exact Top.bind (top_command hsessions failure limit) fun _ => Top.ret _
  | submitReport reporter targetType target context reason =>
      have hmay : MayRun Γ reportWrites := hmoderation.sub (by decide)
      refine Top.bind (top_submitReport (fun reason' => hmay _ fun _ hΓ' hp hs => ?_) reason)
        fun _ => Top.ret _
      exact safe_submitReportBody hΓ' hp hs reporter targetType target context reason'
  | evaluateThreshold targetType target =>
      have hmay : MayRun Γ sanctionWrites := hmoderation.sub (by decide)
      exact Top.bind (hmay _ fun _ hΓ' hp hs =>
        safe_evaluateThresholdBody hΓ' hp hs targetType target) fun _ => Top.ret _
  | revokeScope actor grant reason version at' =>
      have hmay : MayRun Γ [.grant, .bump, .adminAudit] := hmoderation.sub (by decide)
      refine Top.bind (top_revokeScope (fun reason' => hmay _ fun _ hΓ' hp hs => ?_)
        (top_audit (hmay.sub (by decide))) reason) fun _ => Top.ret _
      exact safe_revokeScopeBody hΓ' hp hs actor grant reason' version at'

/-- A context of sessions that keep the index may run what leaves it alone. -/
theorem sessionsCtx_mayRun {ks : List WriteKind}
    (hks : ∀ k ∈ ks, k ∉ [WriteKind.sessions, .newSession]) : MayRun (sessionsCtx p) ks := by
  have hA := sessionsCtx_abides p
  intro β m hm
  refine mayRun_of_frame hA.lawful (fun _ _ _ _ _ => trivial) (hA.permits ks)
    sessionsOnward_composes
    (fun k hk _ _ hf s => sessionsOnward_licensed (hks k hk) hf s) ?_ m hm
  exact fun _ _ _ => sessionsCtx_guar

/-- Writes of other kinds raise no epoch and lower none. -/
theorem epochCtx_mayRun {ks : List WriteKind}
    (hks : ∀ k ∈ ks, k ∉ [WriteKind.withdrawal, .profile]) : MayRun (epochCtx p) ks := by
  have hA := epochCtx_abides p
  intro β m hm
  refine mayRun_of_frame hA.lawful (fun _ _ _ _ _ => trivial) (hA.permits ks)
    usersStep_composes (fun k hk _ _ hf s => usersStep_licensed (hks k hk) hf s) ?_ m hm
  exact fun _ _ _ => epochCtx_guar

/-- The whole-row save is a write of the profile. -/
theorem top_saveUser (h : MayRun Γ [.profile]) (user : User) : Top Γ (saveUser user) := by
  refine h _ fun Γ' hΓ' hp hs => ?_
  refine Safe.bindLocked (P := fun _ => True) hΓ' (fun _ => [.row .user user.pk]) (fun w =>
    (Look.acquire anyError_faults _).mono fun _ _ _ hl => ⟨trivial, ?_⟩) fun _ _ =>
      Safe.bind hΓ' (safe_mark hΓ' hs _ fun _ _ _ _ hv => by cases hv) fun _ => ?_
  · intro l hm
    rw [List.mem_singleton.mp hm]
    exact hl
  · intro w _ hheld
    have hlock : Lock.row .user user.pk ∈ w.sess.held := hheld _ List.mem_cons_self
    exact (Body.write hΓ' anyError_faults fun s =>
      hp .profile (by decide) _ _ (.profile user hlock) s).mono fun _ _ _ _ => trivial

/-- Every operation of the outbox runs among the sessions. -/
theorem top_outbox_sessions (op : RevocationOp) : Top (sessionsCtx p) (op.run p) := by
  have hmay : MayRun (sessionsCtx p) withdrawalWrites := sessionsCtx_mayRun (by decide)
  refine top_outboxOp (sessionsCtx_abides p) (sessionsCtx_runs p)
    (sessionsCtx_mayRun (by decide)) (fun user password => ?_) (fun w tasks hleave hview => ?_) op
  · exact top_withdrawAccount (hmay _ fun _ hΓ' hp _ =>
      safe_withdrawAccountBody hΓ' hp user password)
  · refine sessionsCtx_guar hleave (.of_same ?_)
    rw [hview]

/-- Every operation of the outbox runs among the epochs. -/
theorem top_outbox_epoch (op : RevocationOp) : Top (epochCtx p) (op.run p) := by
  refine top_outboxOp (epochCtx_abides p) (epochCtx_sessions p) (epochCtx_mayRun (by decide))
    (fun user password => ?_) (fun w tasks hleave hview => ?_) op
  · exact (top_withdrawAccount_users user password).within (epochCtx_joins p)
  · refine epochCtx_guar hleave (.of_same ?_)
    rw [hview]

/-! ## One operation -/

/-- An operation that acts with a key acts for the user of the key. -/
theorem wp_sessionOp {s0 : Store} (op : SessionOp) (hi : Idle w)
    (h : SessionsOnward s0 w.db) :
    wp (sessionsCtx p) (op.run p) (fun res w' => Idle w' ∧ ∀ u key, res = .ok (some u) →
      op.sessionKey = some key → ActsFor s0 key u.pk w'.db) w := by
  have hmay : MayRunSessions (sessionsCtx p) := sessionsCtx_runs p
  have hsave : ∀ u, Top (sessionsCtx p) (saveUser u) :=
    top_saveUser (sessionsCtx_mayRun (by decide))
  have hkeyless : Top (sessionsCtx p) (op.run p) → op.sessionKey = none →
      wp (sessionsCtx p) (op.run p) (fun res w' => Idle w' ∧ ∀ u key, res = .ok (some u) →
        op.sessionKey = some key → ActsFor s0 key u.pk w'.db) w := by
    intro htop hkey
    refine wp_mono (fun _ _ hidle => ⟨hidle, fun u key _ hc => ?_⟩) (htop w hi)
    rw [hkey] at hc
    cases hc
  cases op with
  | request r =>
      refine wp_bind (wp_mono ?_ (wp_enforceHttpUserStatus r hi h))
      rintro (e | admission) w1 ⟨hi1, hacts⟩
      · refine ⟨hi1, ?_⟩
        rintro u key ⟨⟩
      cases admission with
      | admitted user =>
          refine ⟨hi1, ?_⟩
          rintro u key ⟨⟩ ⟨⟩
          obtain ⟨hpk, hacts⟩ := hacts user rfl
          rw [hpk]
          exact hacts
      | anonymous =>
          refine ⟨hi1, ?_⟩
          rintro u key ⟨⟩
      | unavailable =>
          refine ⟨hi1, ?_⟩
          rintro u key ⟨⟩
  | login user sessionKey =>
      refine wp_bind (wp_mono ?_ (wp_sessionStart user sessionKey hi h))
      rintro (e | row) w1 ⟨hi1, hacts⟩
      · refine ⟨hi1, ?_⟩
        rintro u key ⟨⟩
      · refine ⟨hi1, ?_⟩
        rintro u key ⟨⟩ ⟨⟩
        exact hacts row rfl
  | logout sessionKey =>
      exact hkeyless (Top.bind (top_sessionLogout hmay _) fun _ => Top.ret _) rfl
  | passwordChange accepts r old new1 new2 =>
      refine hkeyless (Top.bind (Top.bind (top_requestUser r) fun user => ?_) fun _ => Top.ret _)
        rfl
      split
      · exact Top.bind (hsave _) fun _ => Top.bind (top_rotate hmay r _) fun _ => Top.ret _
      · exact Top.raise _
  | bioEdit r bio =>
      have hbio : Top (sessionsCtx p) (bioEdit r bio) := by
        refine Top.bind (top_requestUser r) fun user => ?_
        -- the form is checked without the store: its answer is any
        generalize cleanBio bio = cleaned
        exact Top.bind (Top.ofAnswer cleaned) fun _ => hsave _
      exact hkeyless (Top.bind hbio fun _ => Top.ret _) rfl
  | revocation op =>
      exact hkeyless (Top.bind (top_outbox_sessions op) fun _ => Top.ret _) rfl

/-- An operation that ends sessions has ended them when it succeeds. -/
theorem wp_sessionOp_over (op : SessionOp) (hi : Idle w) (h : UserKeys w.db) :
    wp (epochCtx p) (op.run p) (fun res w' => Idle w' ∧ ∀ a user epoch, res = .ok a →
      op.ends user epoch → Over user epoch w'.db) w := by
  have hmay : MayRunSessions (epochCtx p) := epochCtx_sessions p
  have hendless : Top (epochCtx p) (op.run p) → (∀ user epoch, ¬ op.ends user epoch) →
      wp (epochCtx p) (op.run p) (fun res w' => Idle w' ∧ ∀ a user epoch, res = .ok a →
        op.ends user epoch → Over user epoch w'.db) w := by
    intro htop hnot
    exact wp_mono (fun _ _ hidle => ⟨hidle, fun _ _ _ _ hends => absurd hends (hnot _ _)⟩)
      (htop w hi)
  cases op with
  | request r =>
      refine hendless (Top.bind (top_enforceHttpUserStatus hmay r) fun admission => ?_)
        fun _ _ hends => hends
      cases admission <;> exact Top.ret _
  | login user sessionKey =>
      exact hendless (Top.bind (top_start hmay _ _) fun _ => Top.ret _) fun _ _ hends => hends
  | logout sessionKey =>
      exact hendless (Top.bind (top_sessionLogout hmay _) fun _ => Top.ret _)
        fun _ _ hends => hends
  | passwordChange accepts r old new1 new2 =>
      refine wp_bind (wp_mono ?_ (wp_passwordChange_over accepts r old new1 new2 hi h))
      rintro (e | _) w1 ⟨hi1, hover⟩
      · refine ⟨hi1, ?_⟩
        rintro a user epoch ⟨⟩
      · refine ⟨hi1, ?_⟩
        rintro a user epoch - ⟨rfl, rfl⟩
        exact hover _ rfl
  | bioEdit r bio =>
      have hbio : Top (epochCtx p) (bioEdit r bio) := (top_bioEdit r bio).within (epochCtx_joins p)
      exact hendless (Top.bind hbio fun _ => Top.ret _) fun _ _ hends => hends
  | revocation op =>
      cases op with
      | withdrawAccount user password =>
          refine wp_bind (wp_bind (wp_mono ?_ (wp_withdrawAccount_over user password hi h)))
          rintro (e | result) w1 ⟨hi1, hover⟩
          · refine ⟨hi1, ?_⟩
            rintro a user epoch ⟨⟩
          · refine ⟨hi1, ?_⟩
            rintro a user' epoch - rfl
            exact hover result rfl epoch
      | _ =>
          exact hendless (Top.bind (top_outbox_epoch _) fun _ => Top.ret _)
            fun _ _ hends => hends

/-! ## Every run -/

/-- The sessions fit the database together. -/
theorem sessionsCtx_fits {ι : Type} (p : Platform) :
    Fits (postgres fun _ _ => False) (fun _ : ι => sessionsCtx p) :=
  fits_along (market_fits p _ (fun _ => ⟨fun _ => trivial, fun _ _ _ _ _ => trivial⟩) _ _)
    sessionsOnward_composes fun _ _ h => False.elim h

theorem epochCtx_fits {ι : Type} (p : Platform) :
    Fits (postgres fun _ _ => False) (fun _ : ι => epochCtx p) :=
  fits_along (market_fits p _ (fun _ => ⟨fun _ => trivial, fun _ _ _ _ _ => trivial⟩) _ _)
    usersStep_composes fun _ _ h => False.elim h

section Runs

variable {ι : Type} [DecidableEq ι] {ops : ι → SessionOp} {now : Time}
  {c c' : Config ι Store Lock Exn Obs (Option User)}

omit [DecidableEq ι] in
/-- Every call starts supported. -/
theorem sessions_supported : Supported (fun _ : ι => sessionsCtx p)
    (fun i res w => Idle w ∧ ∀ u key, res = .ok (some u) → (ops i).sessionKey = some key →
      ActsFor s key u.pk w.db) (Config.start s now fun i => (ops i).run p) :=
  supported_start (fun _ => (sessionsCtx_abides p).lawful) fun i =>
    wp_sessionOp (ops i) ⟨rfl, rfl, rfl⟩ (sessionsOnward_composes.refl s)

omit [DecidableEq ι] in
/-- Every call starts supported, where keys are unique. -/
theorem epochs_supported (h : UserKeys s) : Supported (fun _ : ι => epochCtx p)
    (fun i res w => Idle w ∧ ∀ a user epoch, res = .ok a → (ops i).ends user epoch →
      Over user epoch w.db) (Config.start s now fun i => (ops i).run p) :=
  supported_start (fun _ => (epochCtx_abides p).lawful) fun i =>
    wp_sessionOp_over (ops i) ⟨rfl, rfl, rfl⟩ h

/-- **RUN**: the index goes onward from every store reached to every later one. -/
theorem sessions_onward (hr : Reached s now (fun i => (ops i).run p) c)
    (hr' : Reaches (postgres fun _ _ => False) c c') : SessionsOnward c.db c'.db :=
  run_onward (sessionsCtx_fits p) sessions_supported (fun _ _ _ h => False.elim h)
    (fun _ _ _ _ h hg => sessionsOnward_composes.trans _ _ _ h hg.2) hr hr'
    (fun _ _ _ _ _ => trivial) (sessionsOnward_composes.refl _)

/-- **RUN**: sessions that are over stay over. -/
theorem over_onward (h : UserKeys s) (hr : Reached s now (fun i => (ops i).run p) c)
    (hr' : Reaches (postgres fun _ _ => False) c c')
    (hfresh : AllSee (fun _ => SavesFresh) c') (hover : Over user epoch c.db) :
    Over user epoch c'.db :=
  run_onward (epochCtx_fits p) (epochs_supported h) (fun _ _ _ h => False.elim h)
    (fun _ _ _ _ h hg => h.step hg.2) hr hr' hfresh hover

/-- **RUN**: what has succeeded in ending sessions has ended them. -/
theorem over_reached (h : UserKeys s) (hr : Reached s now (fun i => (ops i).run p) c)
    (hfresh : AllSee (fun _ => SavesFresh) c) {i : ι} {a : Option User}
    (hends : (ops i).ends user epoch) (hdone : c.prog i = .ret a) : Over user epoch c.db := by
  obtain ⟨w, he, -, hover⟩ := run_ended (epochCtx_fits p) (epochs_supported h) hr hfresh
    (r := .ok a) hdone
  exact (hover a user epoch rfl hends).step he.db.2

end Runs

/-- **REVOKED FOR GOOD**: in every interleaving of the operations, a key that is indexed
    stays indexed to its user, and a revoked one stays revoked.  A request or a login
    with the key that begins after that acts for this user, and only if the key was not
    revoked when it began. -/
theorem revoked_for_good {ι : Type} [DecidableEq ι] (p : Platform) (ops : ι → SessionOp)
    {s : Store} {now : Time} {c c' : Config ι Store Lock Exn Obs (Option User)}
    (hr : Reached s now (fun i => (ops i).run p) c)
    (hr' : Reaches (postgres fun _ _ => False) c c') {key : String} {x : UserSessionIndex}
    (hx : sessionOf key c.db = some x) :
    (∃ x', sessionOf key c'.db = some x' ∧ x.Revised x') ∧
      ∀ i u, (ops i).sessionKey = some key → c.prog i = (ops i).run p → c.sess i = {} →
        c'.prog i = .ret (some u) → u.pk = x.user ∧ x.revokedAt = none := by
  have honward := sessions_onward hr hr'
  refine ⟨honward.found hx, fun i u hkey hfresh hsess hended => ?_⟩
  obtain ⟨hapart, hsup, hshown⟩ := run_supported (sessionsCtx_fits p) sessions_supported hr
    fun _ _ _ _ _ => trivial
  have hidle : Idle (c.world i) := by
    refine ⟨?_, ?_, ?_⟩ <;> rw [Config.world, hsess]
  have hwp := wp_sessionOp (p := p) (ops i) hidle (sessionsOnward_composes.refl c.db)
  rw [← hfresh] at hwp
  obtain ⟨w, he, -, hacts⟩ := run_later (sessionsCtx_fits p) hapart hsup hshown hwp hr'
    (fun _ _ _ _ _ => trivial) (r := .ok (some u)) hended
  have hacts : ActsFor c.db key u.pk w.db := hacts u key rfl hkey
  obtain ⟨y, hy, huser⟩ := hacts.serves
  obtain ⟨x', hx', hrevised⟩ := hacts.onward.found hx
  rw [hy] at hx'
  cases hx'
  exact ⟨huser.symm.trans hrevised.user, hacts.valid x hx⟩

/-- A user with a session on each of two devices. -/
def signedIn : Store where
  users := [{ pk := 1, username := "seller_one", password := some "correct horse" }]
  sessionIndex := [
    { pk := 5, user := 1, sessionKey := "laptop", authEpoch := 0, lastSeenAt := 1000 },
    { pk := 6, user := 1, sessionKey := "phone", authEpoch := 0, lastSeenAt := 1000 }]

/-- A request of the user, from a device. -/
def fromDevice (key : String) : SessionRequest where
  user := 1
  authentic := fun _ => true
  sessionKey := key
  sessionEpoch := some 0

/-- Whom an operation that has ended acts for. -/
def actsAs : M (Option User) → Option Nat
  | .ret (some user) => some user.pk
  | _ => none

/-- The operation has answered. -/
def SessionOp.hasEnded : M (Option User) → Bool
  | .ret _ => true
  | _ => false

theorem SessionOp.hasEnded_eq {m : M (Option User)} (h : SessionOp.hasEnded m = true) :
    ∃ a, m = .ret a := by
  cases m with
  | ret a => exact ⟨a, rfl⟩
  | _ => cases h

theorem actsAs_eq {m : M (Option User)} {n : Nat} (h : actsAs m = some n) :
    ∃ u : User, m = .ret (some u) ∧ u.pk = n := by
  cases m with
  | ret a =>
      cases a with
      | some u => exact ⟨u, rfl, Option.some.inj h⟩
      | none => cases h
  | _ => cases h

/-- A request, a logout, and a request again. -/
def requestAfterLogout : Fin 3 → SessionOp
  | 0 => .request (fromDevice "laptop")
  | 1 => .logout "laptop"
  | 2 => .request (fromDevice "laptop")

/-- The first request is admitted and the second one is not. -/
theorem revoked_for_good_laptop : ∃ c c' : Config (Fin 3) Store Lock Exn Obs (Option User),
    Reached signedIn 1000 (fun i => (requestAfterLogout i).run plainPlatform) c ∧
      Reaches (postgres fun _ _ => False) c c' ∧ actsAs (c.prog 0) = some 1 ∧
      (∃ x', sessionOf "laptop" c'.db = some x' ∧ x'.revokedAt.isSome) ∧
      ∀ u, c'.prog 2 ≠ .ret (some u) := by
  have hplay : ((play validateBalancedJournal [.run 0 100 id, .run 1 100 fun _ => 1000]
      (Config.start (V := Obs) signedIn 1000 fun i =>
        (requestAfterLogout i).run plainPlatform)).bind fun d =>
          (play validateBalancedJournal [.run 2 100 id] d).map fun d' =>
            ((actsAs (d.prog 0), sessionOf "laptop" d.db), d'.now)) =
      some ((some 1, some ⟨5, 1, "laptop", 0, 1000, some 1000⟩), 1000) := by decide +kernel
  obtain ⟨d, hd, h⟩ := Option.bind_eq_some_iff.mp hplay
  obtain ⟨d', hd', hseen⟩ := Option.map_eq_some_iff.mp h
  obtain ⟨hfirst, -⟩ := Prod.ext_iff.mp hseen
  obtain ⟨hacts, hrow⟩ := Prod.ext_iff.mp hfirst
  have hr : Reached signedIn 1000 (fun i => (requestAfterLogout i).run plainPlatform) d :=
    reaches_play hd
  have hr' : Reaches (postgres fun _ _ => False) d d' := reaches_play hd'
  obtain ⟨hprog, hsess⟩ := play_absent (i := 2) hd (by simp)
  obtain ⟨⟨x', hx', hrevised⟩, hnone⟩ := revoked_for_good plainPlatform requestAfterLogout hr hr'
    hrow
  refine ⟨d, d', hr, hr', hacts, ⟨x', hx', hrevised.revoked rfl⟩, fun u hended => ?_⟩
  obtain ⟨-, hvalid⟩ := hnone 2 u rfl hprog hsess hended
  cases hvalid

/-- **ONE USER FOR EACH KEY**: whatever requests and logins with a key have come to, in
    any interleaving with the others, those that act for a user act for the same one, to
    whom the key is indexed. -/
theorem one_user_for_each_key {ι : Type} [DecidableEq ι] (p : Platform) (ops : ι → SessionOp)
    {s : Store} {now : Time} {c : Config ι Store Lock Exn Obs (Option User)}
    (hr : Reached s now (fun i => (ops i).run p) c) {key : String} {i j : ι} {u v : User}
    (hi : (ops i).sessionKey = some key) (hj : (ops j).sessionKey = some key)
    (hu : c.prog i = .ret (some u)) (hv : c.prog j = .ret (some v)) :
    u.pk = v.pk ∧ ∃ x, sessionOf key c.db = some x ∧ x.user = u.pk := by
  have hacts : ∀ {k : ι} {a : User}, (ops k).sessionKey = some key →
      c.prog k = .ret (some a) → ActsFor s key a.pk c.db := by
    intro k a hkey hended
    obtain ⟨w, he, -, hacts⟩ := run_ended (sessionsCtx_fits p) sessions_supported hr
      (fun _ _ _ _ _ => trivial) (r := .ok (some a)) hended
    exact (hacts a key rfl hkey).later he.db.2
  obtain ⟨x, hx, hxu⟩ := (hacts hi hu).serves
  obtain ⟨y, hy, hyv⟩ := (hacts hj hv).serves
  rw [hx] at hy
  cases hy
  exact ⟨hxu.symm.trans hyv, x, hx, hxu⟩

/-- A login, and a request of the session. -/
def loginAndRequest : Fin 2 → SessionOp
  | 0 => .login { pk := 1, username := "seller_one" } "tablet"
  | 1 => .request (fromDevice "tablet")

/-- Both act for the user of the login. -/
theorem one_user_for_each_key_tablet :
    ∃ (c : Config (Fin 2) Store Lock Exn Obs (Option User)) (u v : User),
      Reached signedIn 1000 (fun i => (loginAndRequest i).run plainPlatform) c ∧
      c.prog 0 = .ret (some u) ∧ c.prog 1 = .ret (some v) ∧ u.pk = v.pk ∧
      ∃ x, sessionOf "tablet" c.db = some x ∧ x.user = u.pk := by
  have hplay : (play validateBalancedJournal [.run 0 100 fun _ => 7, .run 1 100 id]
      (Config.start (V := Obs) signedIn 1000 fun i =>
        (loginAndRequest i).run plainPlatform)).map
          (fun d => (actsAs (d.prog 0), actsAs (d.prog 1))) =
      some (some 1, some 1) := by decide +kernel
  obtain ⟨c, hr, hacts⟩ := reaches_of_play (D := postgres fun _ _ => False) (f := fun d => _) hplay
  obtain ⟨hfirst, hsecond⟩ := Prod.ext_iff.mp hacts
  obtain ⟨u, hu, -⟩ := actsAs_eq hfirst
  obtain ⟨v, hv, -⟩ := actsAs_eq hsecond
  exact ⟨c, u, v, hr, hu, hv, one_user_for_each_key plainPlatform loginAndRequest hr rfl rfl hu hv⟩

/-- **SHUT OUT**: once a password change or a withdrawal has succeeded, the sessions of the
    user of that epoch and earlier ones are over, and no request of one of them that
    begins after that is admitted, whatever its key and whatever runs beside it, as long
    as whole-row writes find a row that is not withdrawn and of no later epoch. -/
theorem older_sessions_shut_out {ι : Type} [DecidableEq ι] (p : Platform) (ops : ι → SessionOp)
    {s : Store} {now : Time} {c c' : Config ι Store Lock Exn Obs (Option User)}
    (hkeys : UserKeys s) (hr : Reached s now (fun i => (ops i).run p) c)
    (hr' : Reaches (postgres fun _ _ => False) c c')
    (hfresh : AllSee (fun _ => SavesFresh) c') {i : ι} {a : Option User} {user epoch : Nat}
    (hends : (ops i).ends user epoch) (hdone : c.prog i = .ret a) :
    Over user epoch c'.db ∧ ∀ j r, ops j = .request r → r.user = user → r.Until epoch →
      c.prog j = (ops j).run p → c.sess j = {} → ∀ u, c'.prog j ≠ .ret (some u) := by
  have hfresh' := allSee_of_reaches hr' hfresh
  have hover : Over user epoch c.db := over_reached hkeys hr hfresh' hends hdone
  refine ⟨over_onward hkeys hr hr' hfresh hover, fun j r hop hruser huntil hprog hsess => ?_⟩
  obtain ⟨hapart, hsup, hshown⟩ := run_supported (epochCtx_fits p) (epochs_supported hkeys) hr
    hfresh'
  have hidle : Idle (c.world j) := by
    refine ⟨?_, ?_, ?_⟩ <;> rw [Config.world, hsess]
  have hover' : Over r.user epoch (c.world j).db := by
    rw [hruser]
    exact hover
  have hwp : wp (epochCtx p) ((ops j).run p) (fun res _ => ∀ u, res ≠ .ok (some u))
      (c.world j) := by
    rw [hop]
    refine wp_bind (wp_mono ?_ (wp_enforce_over r huntil hidle hover'))
    rintro (e | admission) w1 ⟨-, hno⟩
    · rintro u ⟨⟩
    cases admission with
    | admitted user => exact absurd rfl (hno user)
    | anonymous => rintro u ⟨⟩
    | unavailable => rintro u ⟨⟩
  rw [← hprog] at hwp
  intro u hended
  obtain ⟨w, -, hno⟩ := run_later (epochCtx_fits p) hapart hsup hshown hwp hr' hfresh
    (r := .ok (some u)) hended
  exact hno u rfl

/-- The password is changed on the laptop, and the phone asks after that. -/
def changeAndRequest : Fin 2 → SessionOp
  | 0 => .passwordChange (fun _ _ => true) ⟨1, "laptop", 0⟩ "correct horse" "battery staple"
      "battery staple"
  | 1 => .request (fromDevice "phone")

/-- The session of the phone is over, though its row was not revoked. -/
theorem older_sessions_shut_out_phone :
    ∃ c c' : Config (Fin 2) Store Lock Exn Obs (Option User),
      Reached signedIn 1000 (fun i => (changeAndRequest i).run plainPlatform) c ∧
      Reaches (postgres fun _ _ => False) c c' ∧
      (sessionOf "phone" c.db).map (·.revokedAt) = some none ∧ Over 1 0 c'.db ∧
      ∀ u, c'.prog 1 ≠ .ret (some u) := by
  have hplay : ((play validateBalancedJournal [.run 0 200 fun n => n + 20]
      (Config.start (V := Obs) signedIn 1000 fun i =>
        (changeAndRequest i).run plainPlatform)).bind fun d =>
          (play validateBalancedJournal [.run 1 100 id] d).map fun d' =>
            ((SessionOp.hasEnded (d.prog 0), (sessionOf "phone" d.db).map (·.revokedAt)),
              decide (∀ i, ∀ x ∈ marksOf (d'.sess i).hist, SavesFresh x.2.2 x.1 x.2.1))) =
      some ((true, some none), true) := by decide +kernel
  obtain ⟨d, hd, h⟩ := Option.bind_eq_some_iff.mp hplay
  obtain ⟨d', hd', hseen⟩ := Option.map_eq_some_iff.mp h
  obtain ⟨hfirst, hfresh⟩ := Prod.ext_iff.mp hseen
  obtain ⟨hended, hphone⟩ := Prod.ext_iff.mp hfirst
  have hr : Reached signedIn 1000 (fun i => (changeAndRequest i).run plainPlatform) d :=
    reaches_play hd
  have hr' : Reaches (postgres fun _ _ => False) d d' := reaches_play hd'
  obtain ⟨hprog, hsess⟩ := play_absent (i := 1) hd (by simp)
  obtain ⟨a, hdone⟩ := SessionOp.hasEnded_eq hended
  obtain ⟨hover, hnone⟩ := older_sessions_shut_out plainPlatform changeAndRequest (by decide) hr hr'
    (allSee_iff.mpr (of_decide_eq_true hfresh)) (i := 0) ⟨rfl, rfl⟩ hdone
  refine ⟨d, d', hr, hr', hphone, hover, hnone 1 (fromDevice "phone") rfl rfl ?_ hprog hsess⟩
  rintro n ⟨⟩
  exact le_refl _

end Market
