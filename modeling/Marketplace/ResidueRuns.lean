import Marketplace.ResidueSpecs

/-! # Nothing is left of the withdrawn, in every run

    A favorite or a notification that is added while its user withdraws would outlive the
    withdrawal.  It does not: both lock the user, so one of them comes first, and either the
    withdrawal finds the row or the adding finds a withdrawn user. -/

namespace Market

open TxnProgram TxnInterleaving TxnLogic TxnProtection TxnSoundness TxnBody TxnFrames
  TxnInvariants TxnSchedule Tenancy

variable {p : Platform} {Γ : Ctx Store Lock Exn Obs} {w : World Store Lock Obs}
  {s s' s'' : Store}

/-! ## Writes that add nothing -/

/-- Nobody withdraws, and nothing is added. -/
structure Leaves (s s' : Store) : Prop where
  keys : s'.users.map (·.pk) = s.users.map (·.pk)
  withdrawn : ∀ n, HasWithdrawn s' n → HasWithdrawn s n
  items : ∀ i, holdings.item s' i → holdings.item s i

theorem Leaves.refl (s : Store) : Leaves s s := ⟨rfl, fun _ h => h, fun _ h => h⟩

/-- Who is left alone twice is left alone. -/
theorem Leaves.trans (h : Leaves s s') (h' : Leaves s' s'') : Leaves s s'' where
  keys := h'.keys.trans h.keys
  withdrawn n hn := h.withdrawn n (h'.withdrawn n hn)
  items i hi := h.items i (h'.items i hi)

/-- To leave members alone is a relation of steps. -/
theorem leaves_composes : Composes Leaves := ⟨Leaves.refl, fun _ _ _ h h' => h.trans h'⟩

/-- Who adds nothing for anybody leaves all alone. -/
theorem Leaves.of_extends (h : Extends (fun _ => False) s s') : Leaves s s' := by
  refine ⟨by rw [h.users], fun n hn => ?_, fun i hi => ?_⟩
  · rw [HasWithdrawn, ← h.users]
    exact hn
  · exact (h.items i hi).resolve_right id

/-- Who writes none of the three tables leaves all alone. -/
theorem Leaves.of_same (husers : s'.users = s.users) (hfavorites : s'.favorites = s.favorites)
    (hnotifications : s'.notifications = s.notifications) : Leaves s s' :=
  .of_extends (.of_same husers hfavorites hnotifications)

/-- A row of a user is written over and is not withdrawn if it was not. -/
theorem leaves_updateUser {n : Nat} {f : User → User} (hpk : ∀ v, v.pk = n → (f v).pk = v.pk)
    (hf : ∀ v, (f v).withdrawnAt.isSome → v.withdrawnAt.isSome) (s : Store) :
    Leaves s (updateUser n f s) := by
  refine ⟨?_, fun m hm => ?_, fun i hi => ?_⟩
  · exact map_identity (updateUser_identity hpk)
  · obtain ⟨u, hu, hum, hgone⟩ := hm
    obtain ⟨v, hv, hvu⟩ := List.mem_map.mp hu
    have hvm : v.pk = m := by
      rw [← hum, ← hvu, updateUser_identity hpk]
    refine ⟨v, hv, hvm, ?_⟩
    rw [← hvu] at hgone
    split at hgone
    · exact hf v hgone
    · exact hgone
  · cases i with
    | inl r => exact hi
    | inr x => exact hi

/-- Notices may go. -/
theorem leaves_removeNotifications (pks : List Nat) (s : Store) :
    Leaves s (removeNotifications pks s) := by
  refine ⟨rfl, fun _ h => h, fun i hi => ?_⟩
  cases i with
  | inl r => exact hi
  | inr n => exact (List.mem_filter.mp hi).1

/-- Every write but a withdrawal and a saved profile leaves members alone. -/
theorem leaves_licensed {k : WriteKind} (hk : k ∉ [WriteKind.withdrawal, .profile])
    {held : List Lock} {f : Store → Store} (h : Licensed held k f) (s : Store) :
    Leaves s (f s) := by
  cases h with
  | withdrawal _ _ _ => exact absurd (by decide) hk
  | profile _ _ => exact absurd (by decide) hk
  | favorites pks => exact .of_extends (extends_removeFavorites pks s)
  | notifications pks => exact leaves_removeNotifications pks s
  | bump n _ =>
      exact leaves_updateUser (f := fun u => { u with authEpoch := u.authEpoch + 1 })
        (fun _ _ => rfl) (fun _ h => h) s
  | _ => exact .of_same rfl rfl rfl

/-- Who leaves members alone keeps the invariant. -/
theorem Leaves.residue (h : Leaves s s') (hI : ResidueInv s) : ResidueInv s' := by
  refine ⟨?_, hI.clean.grows ⟨h.withdrawn, fun i hi => .inl (h.items i hi)⟩⟩
  rw [UserKeys, h.keys]
  exact hI.keys

/-! ## The commit of a withdrawal -/

/-- A withdrawal withdraws one user. -/
theorem hasWithdrawn_setWithdrawn {u : User} {now : Time} {n : Nat}
    (h : HasWithdrawn (setWithdrawn u now s) n) : HasWithdrawn s n ∨ n = u.pk := by
  obtain ⟨x, hx, hpk, hgone⟩ := h
  obtain ⟨v, hv, hvx⟩ := List.mem_map.mp hx
  by_cases hu : v.pk = u.pk
  · rw [if_pos hu] at hvx
    right
    rw [← hpk, ← hvx]
    exact hu
  · rw [if_neg hu] at hvx
    rw [← hvx] at hpk hgone
    exact .inl ⟨v, hv, hpk, hgone⟩

/-- Who withdraws leaves nothing. -/
theorem Withdrawn.retires {u : User} {now : Time} {scope : WithdrawalScope}
    {favorites notifications : List Nat} {r : WithdrawalResult} (hΓ : Lawful Γ)
    (h : Withdrawn Γ u now scope favorites notifications r w) :
    holdings.Retires u.pk w.db w.view where
  retired n hn := by
    have husers : w.view.users = (setWithdrawn u now w.db).users := h.writes.users w.db
    have hset : HasWithdrawn (setWithdrawn u now w.db) n := by
      rw [HasWithdrawn, ← husers]
      exact hn
    exact hasWithdrawn_setWithdrawn hset
  items i hi := by
    cases i with
    | inl x =>
        have hx : x ∈ (w.sess.pend w.db).favorites := hi
        rw [h.writes.favorites] at hx
        exact (List.mem_filter.mp hx).1
    | inr x =>
        have hx : x ∈ (w.sess.pend w.db).notifications := hi
        rw [h.writes.notifications] at hx
        exact (List.mem_filter.mp hx).1
  gone i hi := by
    -- a row that is left is not among those that were taken, so it is of somebody else
    cases i with
    | inl x =>
        have hx : x ∈ (w.sess.pend w.db).favorites := hi
        rw [h.writes.favorites] at hx
        obtain ⟨hold, hleft⟩ := List.mem_filter.mp hx
        intro howner
        have htaken : x.pk ∈ favorites := h.taken.favorites w (Near.refl hΓ w) x hold howner
        rw [List.contains_iff_mem.mpr htaken] at hleft
        cases hleft
    | inr x =>
        have hx : x ∈ (w.sess.pend w.db).notifications := hi
        rw [h.writes.notifications] at hx
        obtain ⟨hold, hleft⟩ := List.mem_filter.mp hx
        intro howner
        have htaken : x.pk ∈ notifications :=
          h.taken.notifications w (Near.refl hΓ w) x hold howner
        rw [List.contains_iff_mem.mpr htaken] at hleft
        cases hleft

/-- **WITHDRAWAL** leaves nothing of the user. -/
theorem WithdrawalDone.residue {user : Nat} {r : WithdrawalResult} (hΓ : Lawful Γ)
    (h : WithdrawalDone Γ user r w) (hI : ResidueInv w.db) : ResidueInv w.view := by
  refine ⟨?_, ?_⟩
  · rw [UserKeys, h.usersStep.keys]
    exact hI.keys
  · cases h with
    | replayed _ h =>
        rw [view_of_id h.pend]
        exact hI.clean
    | withdrawn u now scope favorites notifications _ h => exact hI.clean.retires (h.retires hΓ)

/-! ## Two contexts -/

/-- The context of sessions whose commits keep the invariant. -/
def residueCtx (p : Platform) : Ctx Store Lock Exn Obs :=
  market p ⟨fun _ _ => True, fun _ s s' => ResidueInv s → ResidueInv s'⟩
    (fun _ _ _ => True) fun _ _ _ => True

theorem residueCtx_abides (p : Platform) : Abides p (residueCtx p) :=
  market_abides ⟨fun _ => trivial, fun _ _ _ _ _ => trivial⟩ fun _ _ => trivial

/-- The context of sessions that add nothing. -/
def leavesCtx (p : Platform) : Ctx Store Lock Exn Obs :=
  market p ⟨fun _ _ => True, fun _ => Leaves⟩ (fun _ _ _ => True) fun _ _ _ => True

theorem leavesCtx_abides (p : Platform) : Abides p (leavesCtx p) :=
  market_abides ⟨fun _ => trivial, fun _ _ _ _ _ => trivial⟩ fun _ _ => trivial

/-- Who adds nothing keeps the invariant. -/
theorem leaves_joins (p : Platform) : Joins (leavesCtx p) (leavesCtx p) (residueCtx p) where
  deferred := ⟨rfl, rfl⟩
  fault _ he := ⟨he, he⟩
  rely _ _ _ h := ⟨h, h⟩
  guar _ _ _ hg _ := ⟨hg.1, hg.2.1, hg.2.2.residue⟩
  given _ _ _ h := ⟨h, h⟩
  shown _ _ _ h _ := h

/-- Any transactions that follow the locking rules, withdraw nobody and add nothing. -/
def HoldingsForeign (p : Platform) (m : M Unit) : Prop := Top (leavesCtx p) m

/-- What the catalogue lists may be run. -/
theorem mayRun_leaves {ks : List WriteKind}
    (hks : ∀ k ∈ ks, k ∉ [WriteKind.withdrawal, .profile]) : MayRun (leavesCtx p) ks := by
  have hA := leavesCtx_abides p
  intro β m hm
  exact mayRun_of_frame hA.lawful (fun _ _ _ _ _ => trivial) (hA.permits _) leaves_composes
    (fun k hk held f hf s => leaves_licensed (hks k hk) hf s)
    (fun _ _ _ hleave hsame => ⟨hleave.1, trivial, hsame⟩) m hm

/-- A report leaves the holdings of members alone. -/
theorem holdingsForeign_submitReport (reporter : Nat) (targetType : TargetType) (target : Nat)
    (context : ReportContext) (reason : String) : HoldingsForeign p
      (do let _ ← submitReport reporter targetType target context reason) := by
  have hmay : MayRun (leavesCtx p) reportWrites := mayRun_leaves (by decide)
  refine Top.bind (top_submitReport (fun reason' => hmay _ fun _ hΓ' hp hs => ?_) reason)
    fun _ => Top.ret _
  exact safe_submitReportBody hΓ' hp hs reporter targetType target context reason'

/-! ## The operations -/

/-- Withdrawals, whatever adds favorites and notifications, the forms that write a whole
    row of a user back, and anything else. -/
inductive HolderOp (p : Platform) where
  | withdrawAccount (user : Nat) (password : String)
  | productFavorite (r : Request) (product : Nat) (action : Option Bool)
  | accept (sha256 : String → String) (c : AcceptCall)
  | transfer (user : Nat) (recipientName : String) (amount : Money) (key : Uuid)
  | transferForProductRoom (user room : Nat) (amount : Money) (key : Uuid)
  | bioEdit (r : Request) (bio : String)
  | passwordChange (accepts : User → String → Bool) (r : Request) (old new1 new2 : String)
  | other (m : M Unit) (h : HoldingsForeign p m)

def HolderOp.run : HolderOp p → M Unit
  | .withdrawAccount user password => do let _ ← Market.withdrawAccount user password
  | .productFavorite r product action => do let _ ← Market.productFavorite r product action
  | .accept sha256 c => do let _ ← c.run sha256
  | .transfer user recipientName amount key => do
      let _ ← Market.transfer p user recipientName amount key none
  | .transferForProductRoom user room amount key => do
      let _ ← Market.transferForProductRoom p user room amount key
  | .bioEdit r bio => Market.bioEdit r bio
  | .passwordChange accepts r old new1 new2 => Market.passwordChange accepts r old new1 new2
  | .other m _ => m

/-- A transaction that adds only for users who stand. -/
theorem top_adds {α : Type} {m : M α}
    (h : ∀ w : World Store Lock Obs, w.sess.pend = id → w.sess.frames ≠ [] →
      Body (residueCtx p) m w (fun _ w' => Adds w w') anyError) :
    Top (residueCtx p) (atomic m) := by
  have hA := residueCtx_abides p
  refine Top.atomicEnds (P := fun _ held s0 f => ∀ s, Extends (Standing held s0) s (f s))
    hA.lawful (fun w hpend hopen => (h w hpend hopen).mono fun _ w' _ hadds s => ?_)
    (fun _ f w w' hext hn s => (hext s).mono fun n hstand => Standing.near hA hstand hn)
    fun _ held s f hleave hext => ⟨hleave.1, hleave.2, (hext s).residue⟩
  have hstep := hadds s
  rw [hpend] at hstep
  exact hstep

/-- A favorite is set for an active user only. -/
theorem top_setFavorite_residue (user n : Nat) (active : Bool) :
    Top (residueCtx p) (setFavorite user n active) :=
  top_adds fun _ hpend hopen =>
    body_setFavorite_adds (residueCtx_abides p) user n active hpend hopen

/-- So is the one of a request. -/
theorem top_productFavorite_residue (r : Request) (product : Nat) (action : Option Bool) :
    Top (residueCtx p) (productFavorite r product action) := by
  refine Top.bind (top_requestUser r) fun user => Top.bind (Top.select _) fun shown => ?_
  cases shown with
  | none => exact Top.raise _
  | some x =>
      refine Top.bind (Top.bind (Top.select _) fun _ => Top.bind (Top.select _) fun _ =>
        Top.ret _) fun visibility => ?_
      split
      · exact Top.raise _
      · cases action with
        | none => exact Top.ret _
        | some active => exact Top.bind (top_setFavorite_residue _ _ _) fun _ => Top.ret _

/-- What `accept` does once its transaction is over. -/
theorem top_deliver_residue (m : ChatMessage) : Top (residueCtx p) (deliver m) := by
  have hA := residueCtx_abides p
  have hpublished : ∀ s, Leaves s (addPublished m.pk s) := fun s => .of_same rfl rfl rfl
  have hdelivered : ∀ s, Leaves s (setDelivery m.pk .live s) := fun s => .of_same rfl rfl rfl
  have hpublish : Top (residueCtx p) (atomic (Prog.write (addPublished m.pk))) :=
    top_atomicWrite hA (fun _ hpend => body_addPublished hA m.pk hpend) fun _ s hleave =>
      ⟨hleave.1, hleave.2, (hpublished s).residue⟩
  refine Top.bind (Top.tryCatch (Top.bind hpublish fun _ => Top.bind Top.fresh fun _ =>
    Top.ret _) fun _ => Top.ret _) fun live => ?_
  cases live with
  | true =>
      refine Top.bind (top_atomicWrite hA (fun _ hpend => body_setDelivery hA m.pk .live hpend)
        fun _ s hleave => ?_) fun _ => Top.ret _
      exact ⟨hleave.1, hleave.2, (hdelivered s).residue⟩
  | false => exact Top.ret _

/-- A notice is sent to an active user only. -/
theorem top_accept_residue (sha256 : String → String) (c : AcceptCall) :
    Top (residueCtx p) (c.run sha256) := by
  have hA := residueCtx_abides p
  refine Top.bind (Top.ofAnswer _) fun _ => Top.bind (Top.ofAnswer _) fun _ =>
    Top.bind (Top.ofAnswer _) fun _ => Top.bind (Top.ofAnswer _) fun _ =>
    Top.bind (top_adds fun w hpend hopen =>
      body_acceptBody_adds hA (fun _ _ _ _ => trivial) _ hpend hopen) fun r => ?_
  cases r with
  | inl replayed => exact Top.ret _
  | inr m => exact top_deliver_residue m

/-- A whole row that was loaded before its user withdrew undoes the withdrawal: it is not
    the row of a withdrawn user, and adds nothing. -/
theorem top_saveUser_residue {loaded : User} (h : loaded.withdrawnAt = none) :
    Top (residueCtx p) (saveUser loaded) := by
  have hA := residueCtx_abides p
  have hΓ := hA.lawful
  refine top_atomicWrite (f := updateUser loaded.pk fun _ => loaded) hA (fun w hpend => ?_)
    fun _ s hleave => ⟨hleave.1, hleave.2, Leaves.residue ?_⟩
  · refine Body.look hΓ (Look.acquire anyError_faults _) fun _ w1 h1 hlock => ?_
    refine Body.look hΓ (Look.observe fun _ _ _ => trivial) fun _ w2 h2 _ => ?_
    refine (Body.write hΓ anyError_faults fun s => hA.leave _ _ _ (respects_updateUser
      (fun _ hv => hv.symm) (h2.held hlock))).mono fun _ w3 _ hp => ?_
    rw [hp, h2.pend, h1.pend, hpend]
    rfl
  · refine leaves_updateUser (fun _ hv => hv.symm) (fun _ hgone => ?_) s
    rw [h] at hgone
    cases hgone

/-- A saved profile leaves the holdings alone, -/
theorem top_bioEdit_residue (r : Request) (bio : String) :
    Top (residueCtx p) (bioEdit r bio) := by
  have hA := residueCtx_abides p
  intro w hi
  rw [bioEdit]
  -- the form is checked without the store: its answer is any
  generalize cleanBio bio = cleaned
  refine wp_bind (wp_mono ?_ (Top.look (top_requestUser r) hi
    (look_requestUser hA.lawful hA r hi.pend)))
  rintro (e | u) w1 ⟨hi1, hend⟩
  · exact hi1
  · have hactive : ∀ value, ({ u with bio := value } : User).withdrawnAt = none :=
      fun _ => hend.active
    exact Top.bind (Top.ofAnswer cleaned) (fun value => top_saveUser_residue (hactive value)) w1
      hi1

/-- and so does a changed password. -/
theorem top_passwordChange_residue (accepts : User → String → Bool) (r : Request)
    (old new1 new2 : String) :
    Top (residueCtx p) (passwordChange accepts r old new1 new2) := by
  have hA := residueCtx_abides p
  have hmay : MayRun (residueCtx p) sessionWrites := by
    intro β m hm
    exact mayRun_of_frame hA.lawful (fun _ _ _ _ _ => trivial) (hA.permits _) leaves_composes
      (fun k hk _ _ hf s => leaves_licensed
        ((by decide : ∀ k ∈ sessionWrites, k ∉ [WriteKind.withdrawal, .profile]) k hk) hf s)
      (fun _ _ _ hleave hsame => ⟨hleave.1, hleave.2, hsame.residue⟩) m hm
  intro w hi
  refine wp_bind (wp_mono ?_ (Top.look (top_requestUser r) hi
    (look_requestUser hA.lawful hA r hi.pend)))
  rintro (e | u) w1 ⟨hi1, hend⟩
  · exact hi1
  · rw [onOk_ok]
    split
    · have hactive : ({ u with password := some new1 } : User).withdrawnAt = none := hend.active
      exact Top.bind (top_saveUser_residue hactive) (fun _ => Top.bind
        (top_rotateAfterPasswordChange hmay r _) fun _ => Top.ret _) w1 hi1
    · exact hi1

/-- A transfer of its own tells nobody. -/
theorem top_transfer_residue (user : Nat) (recipientName : String) (amount : Money)
    (key : Uuid) : Top (residueCtx p) (transfer p user recipientName amount key none) := by
  have hA := residueCtx_abides p
  have honce : Top (residueCtx p) (executeOnce p user recipientName amount key none) := by
    refine top_adds fun w hpend _ => (body_executeOnceBody
      (c := ⟨user, amount, key, canonicalPayload recipientName amount⟩) hA rfl hpend
      Named.any).mono fun r w' _ h s => ?_
    rw [hpend]
    exact h.ended.adds _ s
  intro w hi
  exact wp_attempts (J := Idle) (Q := fun _ w' => Idle w') (fun h => honce _ h)
    (fun _ _ h => h) (fun _ _ _ h => h) 3 hi

/-- **OPERATIONS**, each by its transactions. -/
theorem top_holderOp (op : HolderOp p) : Top (residueCtx p) op.run := by
  have hA := residueCtx_abides p
  cases op with
  | withdrawAccount user password =>
      exact Top.bind (top_withdrawAccount_done hA user password fun r w hleave hdone =>
        ⟨hleave.1, hleave.2, hdone.residue hA.lawful⟩) fun _ => Top.ret _
  | productFavorite r product action =>
      exact Top.bind (top_productFavorite_residue r product action) fun _ => Top.ret _
  | accept sha256 c => exact Top.bind (top_accept_residue sha256 c) fun _ => Top.ret _
  | transfer user recipientName amount key =>
      exact Top.bind (top_transfer_residue user recipientName amount key) fun _ => Top.ret _
  | transferForProductRoom user room amount key =>
      exact Top.bind (top_adds fun w hpend hopen =>
        body_transferForProductRoom_adds hA user room amount key hpend hopen) fun _ => Top.ret _
  | bioEdit r bio => exact top_bioEdit_residue r bio
  | passwordChange accepts r old new1 new2 =>
      exact top_passwordChange_residue accepts r old new1 new2
  | other m hm => exact hm.within (leaves_joins p)

/-! ## Every run -/

section Runs

variable {ι : Type} [DecidableEq ι] {ops : ι → HolderOp p} {now : Time}
  {c : Config ι Store Lock Exn Obs Unit}

omit [DecidableEq ι] in
theorem residueCtx_fits : Fits (postgres fun _ _ => False) (fun _ : ι => residueCtx p) :=
  market_fits p _ (fun _ => ⟨fun _ => trivial, fun _ _ _ _ _ => trivial⟩) _ _

/-- **RUN**. -/
theorem residueInv_reached (h : ResidueInv s)
    (hr : Reached s now (fun i => (ops i).run) c) : ResidueInv c.db :=
  top_invariant (I := ResidueInv) residueCtx_fits (fun i => top_holderOp (ops i))
    (fun _ _ _ h => False.elim h) (fun _ _ _ _ hI hg => hg.2.2 hI) hr
    (fun _ _ _ _ _ => trivial) h

end Runs

/-- **NOTHING IS LEFT**: in every interleaving of withdrawals with whatever adds favorites
    and notifications, in every store reached, no favorite and no notification belongs to a
    user who has withdrawn. -/
theorem withdrawn_hold_nothing {ι : Type} [DecidableEq ι] (p : Platform)
    (ops : ι → HolderOp p) {s : Store} {now : Time} {c : Config ι Store Lock Exn Obs Unit}
    (h : ResidueInv s) (hr : Reached s now (fun i => (ops i).run) c) :
    ∀ u ∈ c.db.users, u.withdrawnAt.isSome →
      (∀ r ∈ c.db.favorites, r.user ≠ u.pk) ∧ ∀ n ∈ c.db.notifications, n.recipient ≠ u.pk := by
  have hclean := (residueInv_reached h hr).clean
  intro u hu hgone
  constructor
  · intro r hmem howner
    exact hclean (.inl r) hmem ⟨u, hu, howner.symm, hgone⟩
  · intro n hmem howner
    exact hclean (.inr n) hmem ⟨u, hu, howner.symm, hgone⟩

/-- Where nobody has withdrawn yet. -/
theorem residueInv_of_active (hkeys : UserKeys s) (h : ∀ u ∈ s.users, u.withdrawnAt = none) :
    ResidueInv s := by
  refine ⟨hkeys, fun i _ hgone => ?_⟩
  obtain ⟨u, hu, -, hsome⟩ := hgone
  rw [h u hu] at hsome
  cases hsome

/-- A conversation whose buyer has a favorite and is about to leave. -/
def buyerLeaving : Store where
  users := [{ pk := 1, username := "seller" },
    { pk := 2, username := "buyer", password := some "correct horse" }]
  products := [{ pk := 3, owner := 1 }]
  favorites := [{ pk := 8, user := 2, product := 3 }]
  rooms := [{ pk := 4, kind := .product }]
  participants := [{ room := 4, user := 1 }, { room := 4, user := 2 }]
  conversations := [{ pk := 5, room := 4, product := 3, seller := 1, buyer := 2 }]
  accounts := [{ pk := 21, user := 2, balance := 0 }]
  ledgerAccounts := [{ pk := 31, kind := .user, mockAccount := some 21, code := "USER:2" }]

/-- The seller writes twice; the buyer withdraws while a favorite of theirs is under way. -/
def writeFavoriteWithdraw : Fin 4 → HolderOp plainPlatform
  | 0 => .accept id ⟨4, 1, someUuid 100, someUuid 101, "hello"⟩
  | 1 => .productFavorite ⟨2, "session", 0⟩ 3 (some true)
  | 2 => .withdrawAccount 2 "correct horse"
  | 3 => .accept id ⟨4, 1, someUuid 100, someUuid 102, "still there?"⟩

def writeFavoriteWithdrawStart : Config (Fin 4) Store Lock Exn Obs Unit :=
  Config.start buyerLeaving 1000 fun i => (writeFavoriteWithdraw i).run

/-- The first message and its notification are stored; the favorite and the second message
    come too late. -/
theorem withdrawn_hold_nothing_buyer : ∃ c : Config (Fin 4) Store Lock Exn Obs Unit,
    Reached buyerLeaving 1000 (fun i => (writeFavoriteWithdraw i).run) c ∧
    (c.db.users.map (·.withdrawnAt.isSome), c.db.messages.map (·.pk),
      c.db.favorites.length, c.db.notifications.length) = ([false, true], [41], 0, 0) ∧
    ∀ u ∈ c.db.users, u.withdrawnAt.isSome →
      (∀ r ∈ c.db.favorites, r.user ≠ u.pk) ∧ ∀ n ∈ c.db.notifications, n.recipient ≠ u.pk := by
  let seen (d : Config (Fin 4) Store Lock Exn Obs Unit) :=
    (d.db.users.map (·.withdrawnAt.isSome), d.db.messages.map (·.pk), d.db.favorites.length,
      d.db.notifications.length)
  have hplay : (play validateBalancedJournal [.run 0 200 (fun n => 41 + n),
      .run 1 5 (fun n => 51 + n), .run 2 200 (fun n => 61 + n), .run 1 100 (fun n => 51 + n),
      .run 3 100 (fun n => 71 + n)] writeFavoriteWithdrawStart).map seen =
      some ([false, true], [41], 0, 0) := by decide +kernel
  obtain ⟨c, hr, hseen⟩ := reaches_of_play (D := postgres fun _ _ => False) (f := seen) hplay
  exact ⟨c, hr, hseen, withdrawn_hold_nothing plainPlatform writeFavoriteWithdraw
    (residueInv_of_active (by decide) (by decide)) hr⟩

end Market
