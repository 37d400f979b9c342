import Marketplace.KeyedRows
import Marketplace.RevocationSpecs
import Marketplace.SafeManagement
import Marketplace.Sessions

/-! # What becomes of the session index

    Requests, logins, logouts, password changes and the worker of the outbox write the
    session index, each in transactions of its own.  All of their writes are of a few
    kinds, and none of them takes a row away, gives it to another user or takes a
    revocation back.  From this: whoever a request is admitted as is the user of the row
    of its key, and the row was not revoked when the request began. -/

namespace Market

open TxnProgram TxnInterleaving TxnLogic TxnProtection TxnBody TxnFrames TxnInvariants
  KeyedRows

variable {p : Platform} {Γ : Ctx Store Lock Exn Obs} {w w' : World Store Lock Obs}
  {held : List Lock} {s s' s0 : Store} {key : String} {user : User}

/-! ## Onward -/

/-- What becomes of a row of the index. -/
structure UserSessionIndex.Revised (r r' : UserSessionIndex) : Prop where
  pk : r'.pk = r.pk
  sessionKey : r'.sessionKey = r.sessionKey
  user : r'.user = r.user
  revoked : r.revokedAt.isSome → r'.revokedAt.isSome

theorem UserSessionIndex.Revised.refl (r : UserSessionIndex) : r.Revised r :=
  ⟨rfl, rfl, rfl, id⟩

/-- A row is revised again and again. -/
theorem UserSessionIndex.Revised.trans (r r' r'' : UserSessionIndex) (h : r.Revised r')
    (h' : r'.Revised r'') : r.Revised r'' :=
  ⟨h'.pk.trans h.pk, h'.sessionKey.trans h.sessionKey, h'.user.trans h.user,
    h'.revoked ∘ h.revoked⟩

/-- Every key that is indexed stays indexed, for the same user, and revoked if it was. -/
def SessionsOnward (s s' : Store) : Prop :=
  Onward (·.sessionKey) UserSessionIndex.Revised s.sessionIndex s'.sessionIndex

/-- A store with the same table is no step. -/
theorem SessionsOnward.of_same (h : s'.sessionIndex = s.sessionIndex) : SessionsOnward s s' := by
  rw [SessionsOnward, h]
  exact Onward.refl UserSessionIndex.Revised.refl _

theorem sessionsOnward_composes : Composes SessionsOnward where
  refl _ := SessionsOnward.of_same rfl
  trans _ _ _ h h' := Onward.trans UserSessionIndex.Revised.trans h h'

/-- A session that is indexed stays indexed, with the row revised. -/
theorem SessionsOnward.found (h : SessionsOnward s s') {x : UserSessionIndex}
    (hx : sessionOf key s = some x) : ∃ x', sessionOf key s' = some x' ∧ x.Revised x' :=
  h key x hx

/-- Rows are revised one by one. -/
theorem sessionsOnward_updateSessions {pks : List Nat}
    {f : UserSessionIndex → UserSessionIndex}
    (hf : ∀ r : UserSessionIndex, r.Revised (f r)) (s : Store) :
    SessionsOnward s (updateSessions pks f s) := by
  refine onward_map (fun r => ?_) fun r => ?_
  · split
    · exact (hf r).sessionKey
    · rfl
  · split
    · exact hf r
    · exact .refl r

/-- A new row leaves the others. -/
theorem sessionsOnward_addSession (r : UserSessionIndex) (s : Store) :
    SessionsOnward s (addSession r s) := onward_append UserSessionIndex.Revised.refl [r]

/-- The other kinds of writes leave the index alone. -/
theorem sessionsOnward_licensed {k : WriteKind} (hk : k ∉ [WriteKind.sessions, .newSession])
    {f : Store → Store} (h : Licensed held k f) (s : Store) : SessionsOnward s (f s) := by
  cases h with
  | sessions _ _ _ => exact absurd (by decide) hk
  | newSession _ _ _ => exact absurd (by decide) hk
  | _ => exact .of_same rfl

/-! ## The writes -/

/-- The writes of sessions, of the epoch, and of the worker, under the locks that they
    are made under. -/
inductive SessionWrite (held : List Lock) : (Store → Store) → Prop where
  | revised (pks : List Nat) (f : UserSessionIndex → UserSessionIndex) :
      (∀ r : UserSessionIndex, r.Revised (f r)) → SessionWrite held (updateSessions pks f)
  | started (r : UserSessionIndex) : .unique (.pk .sessionIndex r.pk) ∈ held →
      .unique (.sessionKey r.sessionKey) ∈ held → SessionWrite held (addSession r)
  | bumped (n : Nat) : .row .user n ∈ held → SessionWrite held (bumpAuthEpoch n)
  | flushed (keys : List String) : SessionWrite held (removeSessions keys)
  | logged (e : EffectLog) : SessionWrite held (addEffect e)
  | task (n : Nat) (f : RevocationTask → RevocationTask) : .row .revocationTask n ∈ held →
      (∀ t, (f t).identity = t.identity) → SessionWrite held (updateTask n f)

/-- Each write of the sessions follows the locking rules. -/
theorem SessionWrite.respects {f : Store → Store} (h : SessionWrite held f) (s : Store) :
    Respects p held s (f s) := by
  cases h with
  | revised pks f hf => exact respects_updateSessions fun r => ⟨(hf r).pk, (hf r).sessionKey⟩
  | started r hpk hkey => exact respects_addSession hpk hkey
  | bumped n hlock => exact respects_updateUser (fun _ _ => rfl) hlock
  | flushed keys => exact respects_removeSessions
  | logged e => exact respects_addEffect e
  | task n f hlock hf => exact respects_updateTask hf hlock

/-- Each write of the sessions goes onward. -/
theorem SessionWrite.onward {f : Store → Store} (h : SessionWrite held f) (s : Store) :
    SessionsOnward s (f s) := by
  cases h with
  | revised pks f hf => exact sessionsOnward_updateSessions hf s
  | started r _ _ => exact sessionsOnward_addSession r s
  | _ => exact .of_same rfl

/-- A context allows these writes. -/
def MaySession (Γ : Ctx Store Lock Exn Obs) : Prop :=
  ∀ held f, SessionWrite held f → ∀ s, Γ.leave held s (f s)

/-- Transactions that make no other writes may be run. -/
def MayRunSessions (Γ : Ctx Store Lock Exn Obs) : Prop :=
  ∀ {β : Type} (m : M β),
    (∀ Γ', Lawful Γ' → MaySession Γ' → ShowsMarks Γ' → Safe Γ' [] m) → Top Γ (atomic m)

/-- What these writes keep is enough for a commit. -/
theorem mayRunSessions_of_frame (hA : Abides p Γ) (hshow : ShowsMarks Γ)
    {W : Store → Store → Prop} (hW : Composes W)
    (hkeep : ∀ held f, SessionWrite held f → ∀ s, W s (f s))
    (hguar : ∀ held s s', Γ.leave held s s' → W s s' → Γ.guar held s s') :
    MayRunSessions Γ := by
  intro β m hm
  refine Top.atomicFramed hA.lawful (hm Γ hA.lawful ?_ hshow) (hm _ (frame_lawful _ hW) ?_ ?_)
    hguar
  · exact fun held f hf s => hA.leave _ _ _ (hf.respects s)
  · exact fun held f hf s => hkeep held f hf s
  · exact fun _ _ _ _ _ => trivial

section Safe

variable {ls : List Lock}

/-- Such a write may be made without a lock. -/
theorem safe_sessionWrite (hΓ : Lawful Γ) (h : MaySession Γ) {f : Store → Store}
    (hf : ∀ held, SessionWrite held f) : Safe Γ ls (Prog.write f : M Unit) :=
  fun _ _ _ => (Body.write hΓ anyError_faults fun s => h _ f (hf _) s).mono
    fun _ _ _ _ => trivial

/-- Rows of the index, found in the same transaction, are revised. -/
theorem safe_reviseSessions (hΓ : Lawful Γ) (h : MaySession Γ)
    {f : UserSessionIndex → UserSessionIndex}
    (hf : ∀ r : UserSessionIndex, r.Revised (f r)) (pks : List Nat) :
    Safe Γ ls (updateRows .sessionIndex pks (updateSessions pks f)) :=
  safe_updateRows hΓ fun held _ s => h held _ (.revised pks f hf) s

/-- To be revoked is a revision. -/
theorem revised_revokedAt (now : Time) (r : UserSessionIndex) :
    r.Revised { r with revokedAt := some now } := ⟨rfl, rfl, rfl, fun _ => rfl⟩

/-- To be seen is a revision. -/
theorem revised_lastSeenAt (now : Time) (r : UserSessionIndex) :
    r.Revised { r with lastSeenAt := now } := ⟨rfl, rfl, rfl, id⟩

/-- To be taken over by a later epoch is a revision, of a row that is not revoked. -/
theorem revised_authEpoch (n : Nat) (now : Time) (r : UserSessionIndex) :
    r.Revised { r with authEpoch := n, lastSeenAt := now } := ⟨rfl, rfl, rfl, id⟩

/-- A task is rewritten under its lock. -/
theorem safe_updateTask (hΓ : Lawful Γ) (h : MaySession Γ) (n : Nat)
    {f : RevocationTask → RevocationTask} (hf : ∀ t, (f t).identity = t.identity) :
    Safe Γ ls (updateRows .revocationTask [n] (updateTask n f)) :=
  safe_updateRows hΓ fun held hlocks s =>
    h held _ (.task n f (hlocks _ List.mem_cons_self) hf) s

/-- A worker claims a task. -/
theorem safe_claimTask (hΓ : Lawful Γ) (h : MaySession Γ) (task : Nat) (now : Time) :
    Safe Γ ls (claimTask task now) := by
  refine Safe.bind hΓ (safe_getForUpdate hΓ _ _ _ _) fun loaded => ?_
  split
  · exact Safe.ret hΓ _
  · split
    · exact Safe.ret hΓ _
    · exact Safe.bind hΓ (safe_updateTask hΓ h _ fun _ => rfl) fun _ => Safe.ret hΓ _

/-- The sessions of the user are revoked. -/
theorem safe_deleteSessions (hΓ : Lawful Γ) (h : MaySession Γ) (task attempt user : Nat) :
    Safe Γ ls (deleteSessions task attempt user) := by
  refine Safe.bind hΓ (safe_selectForUpdate hΓ _ _ _ _) fun indexes =>
    Safe.bind hΓ ?_ fun _ => safe_sessionWrite hΓ h fun _ => .logged _
  rw [dropSessions]
  split
  · exact Safe.ret hΓ _
  · exact Safe.bind hΓ (safe_sessionWrite hΓ h fun _ => .flushed _) fun _ =>
      Safe.bind hΓ (Safe.fresh hΓ) fun now =>
        safe_reviseSessions hΓ h (revised_revokedAt now) _

/-- A worker ends its attempt. -/
theorem safe_endTask (hΓ : Lawful Γ) (h : MaySession Γ) (hshow : ShowsMarks Γ)
    (task attempt : Nat) {saved : Time → RevocationTask → RevocationTask}
    (hsaved : ∀ now t, (saved now t).identity = t.identity) :
    Safe Γ ls (endTask task attempt saved) :=
  Safe.bind hΓ (safe_getForUpdate hΓ _ _ _ _) fun _ =>
    Safe.bind hΓ (safe_mark hΓ hshow _ fun _ _ _ _ hv => by cases hv) fun _ =>
      Safe.bind hΓ (Safe.fresh hΓ) fun now => safe_updateTask hΓ h _ (hsaved now)

end Safe

/-! ## One transaction after the other -/

section Top

theorem top_revoke (h : MayRunSessions Γ) (key : String) : Top Γ (sessionEnd key) :=
  Top.bind Top.fresh fun now => h _ fun _ hΓ' hmay _ =>
    Safe.bind hΓ' (safe_fetch hΓ' _) fun _ =>
      safe_reviseSessions hΓ' hmay (revised_revokedAt now) _

/-- A flushed session is revoked. -/
theorem top_flushSession (h : MayRunSessions Γ) (key : String) : Top Γ (flushSession key) :=
  h _ fun _ hΓ' hmay _ => safe_sessionWrite hΓ' hmay fun _ => .flushed _

/-- So is one that logs out. -/
theorem top_sessionLogout (h : MayRunSessions Γ) (key : String) : Top Γ (sessionLogout key) :=
  Top.bind (top_revoke h key) fun _ => top_flushSession h key

/-- A request is seen. -/
theorem top_touchSession (h : MayRunSessions Γ) (row : UserSessionIndex) :
    Top Γ (touchSession row) := by
  refine Top.bind Top.fresh fun now => ?_
  split
  · exact h _ fun _ hΓ' hmay _ => Safe.bind hΓ' (safe_fetch hΓ' _) fun _ =>
      safe_reviseSessions hΓ' hmay (revised_lastSeenAt now) _
  · exact Top.ret _

/-- A row of the user that is not revoked gets the user's epoch. -/
theorem top_reindexed (h : MayRunSessions Γ) (user : User) (now : Time)
    (row : UserSessionIndex) : Top Γ (if row.authEpoch != user.authEpoch then do
      atomic (updateRows .sessionIndex [row.pk] (updateSessions [row.pk] fun r =>
        { r with authEpoch := user.authEpoch, lastSeenAt := now }))
      return { row with authEpoch := user.authEpoch, lastSeenAt := now }
    else return row : M UserSessionIndex) := by
  split
  · exact Top.bind (h _ fun _ hΓ' hmay _ =>
      safe_reviseSessions hΓ' hmay (revised_authEpoch user.authEpoch now) _) fun _ => Top.ret _
  · exact Top.ret _

/-- A login takes over the row of its key. -/
theorem top_reindex (h : MayRunSessions Γ) (user : User) (now : Time)
    (row : UserSessionIndex) : Top Γ (reindexSession user now row) :=
  Top.bind (Top.raiseIf _ _) fun _ => Top.bind (Top.raiseIf _ _) fun _ =>
    top_reindexed h user now row

theorem top_start (h : MayRunSessions Γ) (user : User) (key : String) :
    Top Γ (sessionStart user key) := by
  refine Top.bind Top.fresh fun now => Top.bind (h _ fun _ hΓ' hmay _ => ?_)
    fun ⟨row, created⟩ => ?_
  · refine safe_getOrCreate hΓ' (fun w => look_true (look_fetch anyError_faults _))
      (Safe.bind hΓ' (Safe.fresh hΓ') fun n => Safe.bind hΓ' (safe_insertRow hΓ'
        fun held _ hkeys s => ?_) fun _ => Safe.ret hΓ' _)
    exact hmay held _ (.started _ (hkeys _ List.mem_cons_self)
      (hkeys _ (List.mem_cons_of_mem _ List.mem_cons_self))) s
  · cases created with
    | true => exact Top.ret _
    | false => exact top_reindex h _ _ _

/-- The epoch of a user is raised. -/
theorem top_bumpEpoch (h : MayRunSessions Γ) (user : Nat) :
    Top Γ (atomic (updateRows .user [user] (bumpAuthEpoch user))) :=
  h _ fun _ hΓ' hmay _ => safe_updateRows hΓ' fun held hlocks s =>
    hmay held _ (.bumped user (hlocks _ List.mem_cons_self)) s

/-- What a password change does after its bump of the epoch. -/
theorem top_afterBump (h : MayRunSessions Γ) (user : User) : Top Γ (do
    let stored ← getRow .user fun s => s.users.find? (·.pk == user.pk)
    let newKey ← Prog.fresh
    sessionStart { user with authEpoch := stored.authEpoch } (toString newKey)) := by
  refine Top.bind (Top.bind (Top.select _) fun stored => ?_) fun stored =>
    Top.bind Top.fresh fun _ => top_start h _ _
  cases stored with
  | none => exact Top.raise _
  | some u => exact Top.ret _

/-- A changed password leaves one session. -/
theorem top_rotate (h : MayRunSessions Γ) (r : Request) (user : User) :
    Top Γ (rotateAfterPasswordChange r user) :=
  Top.bind (top_revoke h _) fun _ => Top.bind (top_bumpEpoch h _) fun _ => top_afterBump h user

/-- A request is validated, or its session flushed. -/
theorem top_validateRequest (h : MayRunSessions Γ) (r : SessionRequest) (user : User) :
    Top Γ (validateRequest r user) := by
  rw [validateRequest]
  split
  · exact Top.ret _
  · refine Top.bind (Top.select _) fun found => ?_
    cases found with
    | none =>
        refine Top.tryCatch (Top.bind (top_start h _ _) fun _ => Top.ret _) fun e => ?_
        split
        · exact Top.ret _
        · exact Top.raise _
    | some row =>
        show Top _ (if _ then _ else _)
        split
        · exact Top.ret _
        · exact Top.bind (top_touchSession h row) fun _ => Top.ret _

theorem top_accountAvailable (user : User) : Top Γ (accountAvailable user) := by
  rw [accountAvailable]
  split
  · exact Top.bind (Top.bind (Top.select _) fun _ => Top.ret _) fun _ => Top.ret _
  · exact Top.ret _

/-- The row of a request is there and not revoked. -/
theorem top_sessionAvailable (h : MayRunSessions Γ) (r : SessionRequest) (user : User) :
    Top Γ (sessionAvailable r user) := by
  refine Top.bind (top_validateRequest h r user) fun valid => ?_
  split
  · exact top_accountAvailable user
  · exact Top.ret _

/-- The account of a request. -/
theorem top_requestAccount (h : MayRunSessions Γ) (r : SessionRequest) :
    Top Γ (requestAccount r) := by
  refine Top.bind (Top.select _) fun row => ?_
  cases row with
  | none => exact Top.ret _
  | some user =>
      show Top _ (if _ then _ else _)
      split
      · exact Top.ret _
      · exact Top.bind (top_flushSession h _) fun _ => Top.ret _

/-- The middleware, before every view. -/
theorem top_enforceHttpUserStatus (h : MayRunSessions Γ) (r : SessionRequest) :
    Top Γ (enforceHttpUserStatus r) := by
  refine Top.bind (top_requestAccount h r) fun account => ?_
  cases account with
  | none => exact Top.ret _
  | some user =>
      refine Top.bind (top_sessionAvailable h r user) fun available => ?_
      split
      · exact Top.ret _
      · exact Top.bind (top_sessionLogout h _) fun _ => Top.ret _

/-- What the outside world is asked for writes nothing. -/
theorem top_outside (h : MayRunSessions Γ) (failure : Nat → Option String) (e : EffectLog) :
    Top Γ (outside failure e) := by
  refine Top.bind Top.fresh fun n => ?_
  split
  · exact h _ fun _ hΓ' hmay _ => safe_sessionWrite hΓ' hmay fun _ => .logged e
  · exact Top.raise _

/-- The worker runs one task. -/
theorem top_worker (h : MayRunSessions Γ) (failure : Nat → Option String) (task : Nat) :
    Top Γ (processRevocationTask failure task) := by
  have hend : ∀ attempt (saved : Time → RevocationTask → RevocationTask),
      (∀ now t, (saved now t).identity = t.identity) →
      Top Γ (atomic (endTask task attempt saved)) := fun attempt saved hsaved =>
    h _ fun _ hΓ' hmay hs => safe_endTask hΓ' hmay hs task attempt hsaved
  refine Top.bind Top.fresh fun now => Top.bind (h _ fun _ hΓ' hmay _ =>
    safe_claimTask hΓ' hmay task now) fun claim => ?_
  cases claim with
  | answered done => exact Top.ret _
  | claimed user attempt =>
      refine Top.bind (Top.tryCatch (Top.bind ?_ fun _ => Top.ret _) fun e => ?_)
        fun revoked => ?_
      · exact Top.bind (h _ fun _ hΓ' hmay _ => safe_deleteSessions hΓ' hmay task attempt user)
          fun _ => Top.bind (top_outside h failure _) fun _ => top_outside h failure _
      · exact Top.bind (hend attempt _ fun _ _ => rfl) fun _ => Top.ret _
      · split
        · exact Top.bind (hend attempt _ fun _ _ => rfl) fun _ => Top.ret _
        · exact Top.ret _

end Top

/-! ## Who a session acts for -/

/-- The context of sessions that keep the index. -/
def sessionsCtx (p : Platform) : Ctx Store Lock Exn Obs :=
  along (market p ⟨fun _ _ => True, fun _ _ _ => True⟩ (fun _ _ _ => True) fun _ _ _ => True)
    SessionsOnward

theorem sessionsCtx_abides (p : Platform) : Abides p (sessionsCtx p) where
  lawful := along_lawful (market_lawful p ⟨fun _ => trivial, fun _ _ _ _ _ => trivial⟩ _ _)
    sessionsOnward_composes
  rely _ _ _ h := h.1
  leave _ _ _ h := ⟨h, trivial⟩
  deferred := rfl

/-- What goes onward may be committed. -/
theorem sessionsCtx_guar (hleave : (sessionsCtx p).leave held s s') (h : SessionsOnward s s') :
    (sessionsCtx p).guar held s s' := ⟨⟨hleave.1, hleave.2, trivial⟩, h⟩

theorem sessionsCtx_runs (p : Platform) : MayRunSessions (sessionsCtx p) :=
  mayRunSessions_of_frame (sessionsCtx_abides p) (fun _ _ _ _ _ => trivial)
    sessionsOnward_composes (fun _ _ hf s => hf.onward s) fun _ _ _ => sessionsCtx_guar

/-- Having gone onward from a store is stable. -/
theorem onward_steady (p : Platform) (s0 : Store) :
    Steady (sessionsCtx p) (SessionsOnward s0) :=
  fun _ _ _ hrely h => sessionsOnward_composes.trans _ _ _ h hrely.2

/-- Whatever a session runs, it leaves the index onward. -/
theorem Top.onward {α : Type} {m : M α} (h : Top (sessionsCtx p) m) (hi : Idle w)
    (h0 : SessionsOnward s0 w.db) :
    wp (sessionsCtx p) m (fun _ w' => Idle w' ∧ SessionsOnward s0 w'.db) w :=
  wp_invariant (onward_steady p s0)
    (fun _ _ _ hg h => sessionsOnward_composes.trans _ _ _ h hg.2) h0 (h w hi)

/-- What a program between transactions reads is so of a store that is there. -/
theorem wp_read {α : Type} {I : Store → Prop} (hI : Steady Γ I) {q : Store → α} (hi : Idle w)
    (h : I w.db) : wp Γ (fetch q) (fun r w' => Idle w' ∧ I w'.db ∧
      ∀ a, r = .ok a → a = q w'.db) w := by
  intro w' he
  have hidle : Idle w' := hi.env he
  refine ⟨⟨hidle, hI _ _ _ he.db h, ?_⟩, fun e _ => ⟨hidle, hI _ _ _ he.db h, ?_⟩⟩
  · rintro a ⟨⟩
    rw [view_of_id hidle.pend]
  · rintro a ⟨⟩

/-- The key is indexed to the user, and was not revoked in the store `s0`. -/
structure ActsFor (s0 : Store) (key : String) (user : Nat) (s : Store) : Prop where
  onward : SessionsOnward s0 s
  serves : ∃ x, sessionOf key s = some x ∧ x.user = user
  valid : ∀ x, sessionOf key s0 = some x → x.revokedAt = none

/-- A session acts for its user later on, too. -/
theorem ActsFor.later {n : Nat} (h : ActsFor s0 key n s) (hs : SessionsOnward s s') :
    ActsFor s0 key n s' := by
  obtain ⟨x, hx, huser⟩ := h.serves
  obtain ⟨x', hx', hrevised⟩ := hs.found hx
  exact ⟨sessionsOnward_composes.trans _ _ _ h.onward hs,
    ⟨x', hx', hrevised.user.trans huser⟩, h.valid⟩

/-- A row that was found under the key, of the user and not revoked. -/
theorem ActsFor.of_row {n : Nat} {row : UserSessionIndex} (h0 : SessionsOnward s0 s)
    (hrow : sessionOf key s = some row) (huser : row.user = n) (hvalid : row.revokedAt = none) :
    ActsFor s0 key n s := by
  refine ⟨h0, ⟨row, hrow, huser⟩, fun x hx => ?_⟩
  obtain ⟨x', hx', hrevised⟩ := h0.found hx
  rw [hrow] at hx'
  cases hx'
  cases hrevoked : x.revokedAt with
  | none => rfl
  | some at' =>
      have hkept := hrevised.revoked (by rw [hrevoked]; rfl)
      rw [hvalid] at hkept
      cases hkept

/-- A row that is added under a key that nobody had. -/
theorem ActsFor.of_added {row : UserSessionIndex} (h0 : SessionsOnward s0 s)
    (hfree : (Index.sessionKey row.sessionKey).present s = false) :
    ActsFor s0 row.sessionKey row.user (addSession row s) := by
  have hnone : sessionOf row.sessionKey s = none := lookup_eq_none.mpr hfree
  refine ⟨sessionsOnward_composes.trans _ _ _ h0 (sessionsOnward_addSession row s),
    ⟨row, lookup_added hnone, rfl⟩, fun x hx => ?_⟩
  obtain ⟨x', hx', -⟩ := h0.found hx
  rw [hnone] at hx'
  cases hx'

/-- **SPECIFICATION** of `start` with a row that was indexed before: it refuses rows of
    others and revoked ones. -/
theorem wp_reindexSession (user : User) (now : Time) {row : UserSessionIndex} {d : Store}
    (hd : SessionsOnward s0 d) (hrow : sessionOf key d = some row) (hi : Idle w)
    (h : SessionsOnward d w.db) :
    wp (sessionsCtx p) (reindexSession user now row)
      (fun r w' => Idle w' ∧ ∀ x, r = .ok x → ActsFor s0 key user.pk w'.db) w := by
  have hrefused : ∀ (e : Exn) (x : UserSessionIndex), Except.error e = .ok x →
      ActsFor s0 key user.pk w.db := by
    rintro e x ⟨⟩
  refine wp_bind (wp_raiseIf (fun _ => ⟨hi, hrefused _⟩) fun huser => ?_)
  refine wp_bind (wp_raiseIf (fun _ => ⟨hi, hrefused _⟩) fun hrevoked => ?_)
  have hacts : ActsFor s0 key user.pk d := by
    refine .of_row hd hrow (by simpa using huser) ?_
    simpa using hrevoked
  refine wp_mono ?_ (Top.onward (top_reindexed (sessionsCtx_runs p) user now row) hi h)
  rintro r w' ⟨hi', hon⟩
  exact ⟨hi', fun x _ => hacts.later hon⟩

/-- What `get_or_create` has for `start`: a row that it found in a store, or one that it
    is about to add. -/
inductive StartEnd (s0 : Store) (key : String) (user : User) :
    UserSessionIndex × Bool → World Store Lock Obs → Prop where
  | found (row : UserSessionIndex) (d : Store) (w : World Store Lock Obs) :
      SessionsOnward s0 d → sessionOf key d = some row → SessionsOnward d w.db →
      w.sess.pend = id → StartEnd s0 key user (row, false) w
  | created (row : UserSessionIndex) (w : World Store Lock Obs) : row.user = user.pk →
      row.sessionKey = key → Settled (.sessionKey key) w → w.sess.pend = addSession row →
      StartEnd s0 key user (row, true) w

/-- The end of a login stays one. -/
theorem StartEnd.env {r : UserSessionIndex × Bool} (h : StartEnd s0 key user r w)
    (he : Env (sessionsCtx p) w w') : StartEnd s0 key user r w' := by
  have hpend : w'.sess.pend = w.sess.pend := by rw [he.sess]
  cases h with
  | found row d w hd hrow hon hp =>
      exact .found row d w' hd hrow (sessionsOnward_composes.trans _ _ _ hon he.db.2)
        (hpend.trans hp)
  | created row w huser hkey hfree hp =>
      exact .created row w' huser hkey (hfree.near (sessionsCtx_abides p) he.still.toNear)
        (hpend.trans hp)

theorem body_startSession (user : User) (key : String) (now : Time) (hpend : w.sess.pend = id)
    (hopen : w.sess.frames ≠ []) (h : SessionsOnward s0 w.db) :
    Body (sessionsCtx p) (getOrCreate (fetch fun s => s.sessionIndex.find? (·.sessionKey == key))
      (do
        let n ← Prog.fresh
        let row : UserSessionIndex :=
          { pk := n, user := user.pk, sessionKey := key, authEpoch := user.authEpoch,
            lastSeenAt := now }
        insertRow [.pk .sessionIndex n, .sessionKey key] (addSession row)
        return row)) w (fun r w' => StartEnd s0 key user r w') anyError := by
  have hA := sessionsCtx_abides p
  have hΓ := hA.lawful
  refine body_getOrCreate hΓ anyError_faults hopen (fun w1 h1 => ?_) fun w1 w2 h1 he => ?_
  · refine (look_fetch anyError_faults _).mono fun r w2 h2 hr row hsome => ?_
    have hpend2 : w2.sess.pend = id := (h1.trans hΓ h2).pend.trans hpend
    rw [hsome, view_of_id hpend2] at hr
    exact .found row w2.db w2 (onward_steady p s0 _ _ _ (h1.trans hΓ h2).db h) hr.symm
      (sessionsOnward_composes.refl _) hpend2
  · refine Body.look hΓ Look.fresh fun n w3 h3 _ => ?_
    have hpend3 : w3.sess.pend = id := by
      rw [h3.pend, World.begin_pend, he.sess, h1.pend, hpend]
    refine Body.bind hΓ (body_insertRow hΓ anyError_faults trivial fun held _ hkeys s => ?_)
      fun _ w4 _ hins => Body.ret hΓ fun w5 he5 => .created _ _ rfl rfl ?_ ?_
    · exact hA.leave _ _ _ (respects_addSession (hkeys _ List.mem_cons_self)
        (hkeys _ (List.mem_cons_of_mem _ List.mem_cons_self)))
    · refine Settled.release hA (hins.settled hA
        (List.mem_cons_of_mem _ List.mem_cons_self) fun s hs => ?_) he5
      rw [hpend3] at hs
      exact hs
    · show w5.sess.pend = _
      rw [he5.sess, hins.pend, hpend3]
      rfl

/-- **SPECIFICATION** of `start`. -/
theorem wp_sessionStart (user : User) (key : String) (hi : Idle w)
    (h : SessionsOnward s0 w.db) :
    wp (sessionsCtx p) (sessionStart user key)
      (fun r w' => Idle w' ∧ ∀ x, r = .ok x → ActsFor s0 key user.pk w'.db) w := by
  have hΓ := (sessionsCtx_abides p).lawful
  refine wp_bind fun w1 he now => ?_
  refine wp_bind (wp_settled hΓ (onward_steady p s0) (hi.env he)
    (onward_steady p s0 _ _ _ he.db h)
    (fun w' hpend hopen h' => body_startSession user key now hpend hopen h')
    (fun _ _ _ hend he' => hend.env he') (fun e w3 hidle _ _ => ⟨hidle, ?_⟩) ?_)
  · rintro x ⟨⟩
  · intro r w2 h2 _ hleave hend
    cases hend with
    | found row d w2 hd hrow hon hp =>
        rw [view_of_id hp]
        refine ⟨sessionsCtx_guar ?_ (sessionsOnward_composes.refl _), ?_⟩
        · rw [view_of_id hp] at hleave
          exact hleave
        · refine wp_reindexSession user now hd hrow (publish_idle w2) ?_
          show SessionsOnward d w2.view
          rw [view_of_id hp]
          exact hon
    | created row w2 huser hkey hfree hp =>
        have hview : w2.view = addSession row w2.db := by rw [World.view, hp]
        rw [hview] at hleave ⊢
        refine ⟨sessionsCtx_guar hleave (sessionsOnward_addSession row w2.db),
          publish_idle w2, fun x _ => ?_⟩
        show ActsFor s0 key user.pk w2.view
        rw [hview, ← hkey, ← huser]
        refine .of_added h2 ?_
        rw [hkey]
        exact hfree.free

/-- **SPECIFICATION** of `validate_request`: a valid session acts for the user. -/
theorem wp_validateRequest (r : SessionRequest) (user : User) (hi : Idle w)
    (h : SessionsOnward s0 w.db) :
    wp (sessionsCtx p) (validateRequest r user)
      (fun res w' => Idle w' ∧ (res = .ok true → ActsFor s0 r.sessionKey user.pk w'.db)) w := by
  rw [validateRequest]
  split
  · exact ⟨hi, fun hc => by cases hc⟩
  · refine wp_bind (wp_mono ?_ (wp_read (onward_steady p s0) hi h))
    rintro (e | found) w1 ⟨hi1, h1, hfound⟩
    · exact ⟨hi1, fun hc => by cases hc⟩
    have hfound := hfound found rfl
    cases found with
    | none =>
        -- the key is indexed now, or another request has indexed it meanwhile
        refine wp_tryCatch (wp_bind (wp_mono ?_ (wp_sessionStart user r.sessionKey hi1 h1)))
        rintro (e | row) w2 ⟨hi2, hacts⟩
        · cases e with
          | runtimeError m => exact ⟨hi2, fun hc => by cases hc⟩
          | _ => exact ⟨hi2, fun hc => by cases hc⟩
        · exact ⟨hi2, fun _ => hacts row rfl⟩
    | some row =>
        show wp _ (if _ then _ else _) _ _
        split
        · exact ⟨hi1, fun hc => by cases hc⟩
        · rename_i hvalid
          simp only [Bool.or_eq_true, not_or, bne_iff_ne, ne_eq, not_not,
            Option.isSome_iff_ne_none] at hvalid
          have hacts : ActsFor s0 r.sessionKey user.pk w1.db :=
            .of_row h1 hfound.symm hvalid.1.1 hvalid.2
          refine wp_bind (wp_mono ?_ (Top.onward (top_touchSession (sessionsCtx_runs p) row) hi1
            (sessionsOnward_composes.refl _)))
          rintro (e | _) w2 ⟨hi2, hon⟩
          · exact ⟨hi2, fun hc => by cases hc⟩
          · exact ⟨hi2, fun _ => hacts.later hon⟩

/-- `request.user` is the user of the session. -/
theorem wp_requestAccount (r : SessionRequest) (hi : Idle w) (h : SessionsOnward s0 w.db) :
    wp (sessionsCtx p) (requestAccount r) (fun res w' => (Idle w' ∧ SessionsOnward s0 w'.db) ∧
      ∀ u, res = .ok (some u) → u.pk = r.user) w := by
  refine wp_bind (wp_mono ?_ (wp_read (onward_steady p s0) hi h))
  rintro (e | found) w1 ⟨hi1, h1, hfound⟩
  · refine ⟨⟨hi1, h1⟩, ?_⟩
    rintro u ⟨⟩
  have hfound := hfound found rfl
  cases found with
  | none =>
      refine ⟨⟨hi1, h1⟩, ?_⟩
      rintro u ⟨⟩
  | some user =>
      show wp _ (if _ then _ else _) _ _
      split
      · refine ⟨⟨hi1, h1⟩, ?_⟩
        rintro u ⟨⟩
        have hmatch := List.find?_some hfound.symm
        simp only [Bool.and_eq_true, beq_iff_eq] at hmatch
        exact hmatch.1
      · -- the session is flushed, and the request goes on with no user
        refine wp_bind (wp_mono ?_ (Top.onward (top_flushSession (sessionsCtx_runs p) _) hi1 h1))
        rintro (e | _) w2 hend
        · refine ⟨hend, ?_⟩
          rintro u ⟨⟩
        · refine ⟨hend, ?_⟩
          rintro u ⟨⟩

/-- **SPECIFICATION** of `enforce_http_user_status`: a request is admitted only as the
    user of its key, and only with a key that was not revoked when it began. -/
theorem wp_enforceHttpUserStatus (r : SessionRequest) (hi : Idle w)
    (h : SessionsOnward s0 w.db) :
    wp (sessionsCtx p) (enforceHttpUserStatus r) (fun res w' => Idle w' ∧
      ∀ u, res = .ok (.admitted u) → u.pk = r.user ∧ ActsFor s0 r.sessionKey r.user w'.db) w := by
  refine wp_bind (wp_mono ?_ (wp_requestAccount r hi h))
  rintro (e | account) w1 ⟨⟨hi1, h1⟩, huser⟩
  · refine ⟨hi1, ?_⟩
    rintro u ⟨⟩
  cases account with
  | none =>
      refine ⟨hi1, ?_⟩
      rintro u ⟨⟩
  | some user =>
      have huser : user.pk = r.user := huser user rfl
      refine wp_bind (wp_bind (wp_mono ?_ (wp_validateRequest r user hi1 h1)))
      rintro (e | valid) w2 ⟨hi2, hacts⟩
      · refine ⟨hi2, ?_⟩
        rintro u ⟨⟩
      · -- what follows the check of the session keeps what it found
        have hrest : wp (sessionsCtx p) (if valid then accountAvailable user else return false)
            (fun res w' => Idle w' ∧ (res = .ok true → valid = true) ∧
              SessionsOnward w2.db w'.db) w2 := by
          cases valid with
          | false =>
              refine ⟨hi2, fun hc => ?_, sessionsOnward_composes.refl _⟩
              cases hc
          | true =>
              exact wp_mono (fun _ _ hq => ⟨hq.1, fun _ => rfl, hq.2⟩)
                (Top.onward (top_accountAvailable user) hi2 (sessionsOnward_composes.refl _))
        refine wp_mono ?_ hrest
        rintro (e | available) w3 ⟨hi3, hvalid, hon⟩
        · refine ⟨hi3, ?_⟩
          rintro u ⟨⟩
        cases available with
        | true =>
            refine ⟨hi3, ?_⟩
            rintro u ⟨⟩
            have hvalid : valid = true := hvalid rfl
            rw [hvalid] at hacts
            refine ⟨huser, ?_⟩
            rw [← huser]
            exact (hacts rfl).later hon
        | false =>
            refine wp_bind (wp_mono ?_ (top_sessionLogout (sessionsCtx_runs p) _ w3 hi3))
            rintro (e | _) w4 hi4
            · refine ⟨hi4, ?_⟩
              rintro u ⟨⟩
            · refine ⟨hi4, ?_⟩
              rintro u ⟨⟩

end Market
