import Marketplace.SafeManagement
import Marketplace.TradeRuns
import Marketplace.UserRuns

/-! # Reservations, withdrawals and sanctions

    What a reservation is worth against the operations that take a product or a party
    away.  Withdrawals lock the user before they look for reservations, and reservations
    lock the users before they are made: neither survives the other.  What hides a
    product is looked for before the locks, and not again. -/

namespace Market

open TxnProgram TxnInterleaving TxnLogic TxnProtection TxnSoundness TxnBody TxnFrames
  TxnInvariants TxnSchedule

variable {p : Platform} {Γ : Ctx Store Lock Exn Obs} {w w' : World Store Lock Obs}
  {held : List Lock} {s s' : Store}

/-! ## Reservations and withdrawals -/

/-- No party of a reservation has withdrawn; and keys are primary. -/
structure PartiesRemain (s : Store) : Prop where
  trades : TradeKeys s
  users : UserKeys s
  remain : ∀ t ∈ s.trades, t.status = .reserved → ∀ u ∈ s.users, t.HasParty u.pk →
    u.withdrawnAt = none

instance (s : Store) : Decidable (PartiesRemain s) :=
  decidable_of_iff (TradeKeys s ∧ UserKeys s ∧ ∀ t ∈ s.trades, t.status = .reserved →
    ∀ u ∈ s.users, (t.seller = u.pk ∨ t.buyer = some u.pk) → u.withdrawnAt = none)
    ⟨fun ⟨h1, h2, h3⟩ => ⟨h1, h2, h3⟩, fun h => ⟨h.trades, h.users, h.remain⟩⟩

/-- An active party is every row of its key. -/
theorem ActiveParty.eq {n : Nat} (h : ActiveParty n held s) (hk : UserKeys s) {u : User}
    (hu : u ∈ s.users) (hpk : u.pk = n) : u.withdrawnAt = none := by
  obtain ⟨v, hv, hvpk, -, hnone⟩ := h.row
  rw [hk.eq hu hv (hpk.trans hvpk.symm)]
  exact hnone

/-- **STEP**, a command: whoever it makes a party of a reservation is locked, and active. -/
theorem TradeDone.partiesRemain {f : Store → Store} {c : TradeCommand} {r : TradeResult}
    (h : TradeDone held s f c r) (hi : PartiesRemain s) : PartiesRemain (f s) := by
  cases h with
  | opened actor product n x h =>
      rw [h.writes]
      refine ⟨?_, hi.users, ?_⟩
      · show ((s.trades ++ [reservation n actor x]).map (·.pk)).Nodup
        rw [List.map_append, List.map_singleton, List.nodup_append]
        refine ⟨hi.trades, List.nodup_singleton _, fun m hm k hk hmk => ?_⟩
        obtain ⟨t, ht, rfl⟩ := List.mem_map.mp hm
        have hfree := h.freeTrade.free
        rw [Index.present, Table.present, List.any_eq_false] at hfree
        exact hfree t ht (beq_iff_eq.mpr (hmk.trans (List.mem_singleton.mp hk)))
      · intro t ht hs u hu hparty
        rcases List.mem_append.mp ht with ht | ht
        · exact hi.remain t ht hs u hu hparty
        · rw [List.mem_singleton.mp ht] at hparty
          rcases hparty with hp | hp
          · exact h.seller.eq hi.users hu hp.symm
          · exact h.buyer.eq hi.users hu (Option.some.inj hp).symm
  | reservedBefore actor t _ _ _ _ hf =>
      rw [hf]
      exact hi
  | ended _ actor t status expectedVersion stamp hmay hv h =>
      rw [h.writes]
      refine ⟨tradeKeys_of_identity (endWrites_keys h.stamps actor s) hi.trades, hi.users, ?_⟩
      intro x hx hs u hu hparty
      rcases mem_endWrites hi.trades h.row hx with rfl | ⟨hx, -⟩
      · rw [endedTrade_status h.stamps] at hs
        exact absurd hs h.stamps.final
      · exact hi.remain x hx hs u hu hparty
  | endedBefore _ actor t _ _ _ _ hf =>
      rw [hf]
      exact hi

/-- **STEP**, a withdrawal: the user it withdraws is locked, and in no reservation. -/
theorem WithdrawalDone.partiesRemain {user : Nat} {r : WithdrawalResult}
    (h : WithdrawalDone Γ user r w) (hi : PartiesRemain w.db) : PartiesRemain w.view := by
  have hkeys : UserKeys w.view := by
    rw [UserKeys, h.usersStep.keys]
    exact hi.users
  cases h with
  | replayed _ h =>
      rw [view_of_id h.pend]
      exact hi
  | withdrawn u now scope favorites notifications _ h =>
      have htrades : w.view.trades = w.db.trades := by
        rw [World.view, h.writes.rest]
      have husers : w.view.users = (setWithdrawn u now w.db).users := h.writes.users w.db
      refine ⟨?_, hkeys, ?_⟩
      · rw [TradeKeys, htrades]
        exact hi.trades
      · intro t ht hs v hv hparty
        rw [htrades] at ht
        rw [husers] at hv
        obtain ⟨x, hx, rfl⟩ := List.mem_map.mp hv
        by_cases hpk : x.pk = u.pk
        · rw [if_pos hpk] at hparty
          have hparty' : t.HasParty u.pk := by
            rw [← hpk]
            exact hparty
          exact absurd hs (h.locked.reserved t ht hparty')
        · rw [if_neg hpk] at hparty ⊢
          exact hi.remain t ht hs x hx hparty

/-- Commands and withdrawals. -/
inductive ReservationOp where
  | command (c : TradeCommand)
  | withdrawAccount (user : Nat) (password : String)

/-- The program of an operation; what it answers does not matter here. -/
def ReservationOp.run : ReservationOp → M Unit
  | .command c => do
      let _ ← c.run
      return ()
  | .withdrawAccount user password => do
      let _ ← Market.withdrawAccount user password
      return ()

/-- The context of sessions that keep the parties of reservations. -/
def partiesCtx (p : Platform) : Ctx Store Lock Exn Obs :=
  under (market p ⟨fun _ _ => True, fun _ _ _ => True⟩ (fun _ _ _ => True) fun _ _ _ => True)
    PartiesRemain

def ReservationOp.ctx (p : Platform) : ReservationOp → Ctx Store Lock Exn Obs
  | .command c => c.ctx (partiesCtx p)
  | .withdrawAccount _ _ => partiesCtx p

/-- The sessions keep the discipline of the locks. -/
theorem partiesCtx_abides (p : Platform) : Abides p (partiesCtx p) :=
  under_abides (market_abides (everyWrite_lawful _) fun _ _ => trivial) _

@[simp] theorem ReservationOp.ctx_guar (p : Platform) (op : ReservationOp) :
    (op.ctx p).guar = (partiesCtx p).guar := by
  cases op with
  | command c => exact c.ctx_guar _
  | withdrawAccount _ _ => rfl

@[simp] theorem ReservationOp.ctx_given (p : Platform) (op : ReservationOp) :
    (op.ctx p).given = (partiesCtx p).given := by
  cases op with
  | command c => exact c.ctx_given _
  | withdrawAccount _ _ => rfl

/-- The operations fit the database together. -/
theorem reservationOps_fits {ι : Type} (p : Platform) (ops : ι → ReservationOp) :
    Fits (postgres fun _ _ => False) (fun i => (ops i).ctx p) := by
  refine fits_loosen (Γ := fun _ => partiesCtx p) (fits_under (market_fits p _
    (fun _ => everyWrite_lawful _) _ _) fun _ _ h => False.elim h) fun i => ?_
  cases ops i with
  | command c => exact c.ctx_cases _
  | withdrawAccount _ _ => exact Or.inl rfl

/-- Every operation runs to its end inside its context. -/
theorem wp_reservationOp (op : ReservationOp) (hi : Idle w) (h : PartiesRemain w.db) :
    wp (op.ctx p) op.run (fun _ _ => True) w := by
  cases op with
  | command c =>
      refine wp_bind (wp_mono (Q := fun _ _ => True) ?_ ?_)
      · rintro (e | r) w' -
        · trivial
        · trivial
      · exact wp_tradeCommand (partiesCtx_abides p) (fun _ _ _ h => h.1) (under_steady _ _)
          (fun _ h => h.trades) (fun _ _ _ _ _ _ _ _ => trivial) c hi h
          (fun _ _ _ _ _ => trivial) fun r w2 h2 _ hrespects hdone =>
            ⟨⟨⟨hrespects, trivial, trivial⟩, hdone.partiesRemain⟩, trivial⟩
  | withdrawAccount user password =>
      refine wp_bind (wp_mono (Q := fun _ _ => True) ?_ ?_)
      · rintro (e | r) w' -
        · trivial
        · trivial
      · exact wp_withdrawAccount (partiesCtx_abides p) user password hi
          (fun r w2 _ hleave hdone => ⟨⟨⟨hleave.1, trivial, trivial⟩, hdone.partiesRemain⟩,
            trivial⟩) fun _ _ _ _ => trivial

/-- **NO RESERVATION OF A WITHDRAWN PARTY**: in every store reached by commands and
    withdrawals, a party of a reservation has not withdrawn. -/
theorem no_reservation_withdrawn {ι : Type} [DecidableEq ι] (ops : ι → ReservationOp) {s : Store}
    {now : Time} {c : Config ι Store Lock Exn Obs Unit} (h : PartiesRemain s)
    (hr : Reached s now (fun i => (ops i).run) c) :
    ∀ t ∈ c.db.trades, t.status = .reserved → ∀ u ∈ c.db.users, t.HasParty u.pk →
      u.withdrawnAt = none := by
  have hfit := reservationOps_fits plainPlatform ops
  have hsup : Supported (fun i => (ops i).ctx plainPlatform) (fun _ _ _ => True)
      (Config.start s now fun i => (ops i).run) :=
    supported_start hfit.lawful fun i => wp_reservationOp (ops i) ⟨rfl, rfl, rfl⟩ h
  have hend : PartiesRemain c.db := by
    refine run_onward hfit hsup (fun _ _ _ h => False.elim h) (fun i held s s' h hg => ?_)
      (Reaches.refl _ _) hr (fun i _ _ _ _ => ?_) h
    · rw [ReservationOp.ctx_guar] at hg
      exact hg.2 h
    · show ((ops i).ctx plainPlatform).given _ _ _
      rw [ReservationOp.ctx_given]
      trivial
  exact hend.remain

/-- A product is reserved, and then its owner withdraws. -/
def reserveAndWithdraw : Fin 2 → ReservationOp
  | 0 => .command (.reserve 2 11)
  | 1 => .withdrawAccount 1 "correct horse"

/-- Two users, and a product of one of them. -/
def oneForSale : Store where
  users := [{ pk := 1, username := "seller_one", password := some "correct horse" },
    { pk := 2, username := "buyer_one" }]
  products := [{ pk := 11, owner := 1 }]

theorem no_reservation_withdrawn_reserve_first :
    ∃ c : Config (Fin 2) Store Lock Exn Obs Unit,
      Reached oneForSale 1000 (fun i => (reserveAndWithdraw i).run) c ∧
      (c.db.trades.map fun t => (t.pk, t.status)) = [(7, .reserved)] ∧
      ∀ t ∈ c.db.trades, t.status = .reserved → ∀ u ∈ c.db.users, t.HasParty u.pk →
        u.withdrawnAt = none := by
  have hplay : (play validateBalancedJournal [.run 0 100 fun _ => 7, .run 1 100 id]
      (Config.start (V := Obs) oneForSale 1000 fun i => (reserveAndWithdraw i).run)).map
        (fun d => d.db.trades.map fun t => (t.pk, t.status)) =
      some [(7, .reserved)] := by decide +kernel
  obtain ⟨c, hr, htrades⟩ := reaches_of_play (D := postgres fun _ _ => False)
    (f := fun d => _) hplay
  exact ⟨c, hr, htrades, no_reservation_withdrawn reserveAndWithdraw (by decide) hr⟩

/-! ## Reservations of what is not public -/

/-- The user is active, not withdrawn and not dormant. -/
def FitToTrade (n : Nat) (now : Time) (s : Store) : Prop :=
  (∃ u ∈ s.users, u.pk = n ∧ u.isActive = true ∧ u.withdrawnAt = none) ∧
    (activeActions now s).any (·.isDormancyOf n) = false

/-- The product is there, unarchived and not hidden, and the parties are two users that
    are fit to trade. -/
structure PublicReservation (x : Product) (buyer : Nat) (now : Time) (s : Store) : Prop where
  row : x ∈ s.products
  unarchived : x.archivedAt = none
  visible : (activeActions now s).any (·.isHideOf x.pk) = false
  distinct : x.owner ≠ buyer
  buyer : FitToTrade buyer now s
  seller : FitToTrade x.owner now s

/-- The product was not archived, and every sanction of it or of the parties that is live
    now was so at the first look. -/
def NothingSince (x : Product) (buyer : Nat) (seen : List ModerationAction) (seenAt now : Time)
    (s : Store) : Prop :=
  x.archivedAt = none ∧ ∀ a ∈ activeActions now s,
    (a.isHideOf x.pk || a.isDormancyOf buyer || a.isDormancyOf x.owner) = true →
      a ∈ seen ∧ a.startsAt ≤ seenAt

/-- What a reservation is made of, when it is made: all as it should be, if and only if
    nothing came up since the first look. -/
def PublicIff (v : Obs) (now : Time) (s : Store) : Prop :=
  match v with
  | .reserving x buyer seen seenAt =>
      PublicReservation x buyer now s ↔ NothingSince x buyer seen seenAt now s
  | _ => True

/-- A sanction that is live now and started by then was live then. -/
theorem inWindow_before {a : ModerationAction} {t now : Time} (hwindow : a.inWindow now = true)
    (hstart : a.startsAt ≤ t) (ht : t ≤ now) : a.inWindow t = true := by
  rw [ModerationAction.inWindow, Bool.and_eq_true, decide_eq_true_eq, decide_eq_true_eq]
    at hwindow ⊢
  exact ⟨hstart, Nat.lt_of_le_of_lt ht hwindow.2⟩

/-- An action is active in its window, unless it was released. -/
theorem mem_activeActions {a : ModerationAction} {now : Time} :
    a ∈ activeActions now s ↔ a ∈ s.actions ∧ a.inWindow now = true ∧ released s a = false := by
  rw [activeActions, List.mem_filter, Bool.and_eq_true, Bool.not_eq_true']

/-- A party with no dormancy at some time since the first look is fit, if nothing came up. -/
theorem NotDormant.fit {n : Nat} {t seenAt now : Time} (h : NotDormant n t s)
    (hrow : ∃ u ∈ s.users, u.pk = n ∧ u.isActive = true ∧ u.withdrawnAt = none)
    (hseen : seenAt ≤ t) (ht : t ≤ now)
    (hsince : ∀ a ∈ activeActions now s, a.isDormancyOf n = true → a.startsAt ≤ seenAt) :
    FitToTrade n now s := by
  refine ⟨hrow, ?_⟩
  rw [List.any_eq_false]
  intro a ha hdormancy
  have hstart : a.startsAt ≤ seenAt := hsince a ha hdormancy
  obtain ⟨hmem, hwindow, hrel⟩ := mem_activeActions.mp ha
  rw [ModerationAction.isDormancyOf, Bool.and_eq_true, beq_iff_eq, beq_iff_eq] at hdormancy
  have hdone := h a hmem hdormancy.1 hdormancy.2
    (inWindow_before hwindow (Nat.le_trans hstart hseen) ht)
  rw [hrel] at hdone
  exact nomatch hdone

/-- **RESERVATION**: what the checks of `reserve` are worth when it inserts. -/
theorem Eligible.publicIff {x : Product} {buyer : Nat} {seen : List ModerationAction}
    {seenAt now : Time} (h : Eligible x buyer seen seenAt now s) :
    PublicReservation x buyer now s ↔ NothingSince x buyer seen seenAt now s := by
  constructor
  · -- with nothing live there is nothing that could be late
    intro hp
    refine ⟨hp.unarchived, fun a ha hkind => ?_⟩
    have hhide := List.any_eq_false.mp hp.visible a ha
    have hbuyer := List.any_eq_false.mp hp.buyer.2 a ha
    have hseller := List.any_eq_false.mp hp.seller.2 a ha
    rw [Bool.or_eq_true, Bool.or_eq_true] at hkind
    rcases hkind with (hk | hk) | hk
    · exact absurd hk hhide
    · exact absurd hk hbuyer
    · exact absurd hk hseller
  · rintro ⟨hopen, hsince⟩
    obtain ⟨t, hseen, ht, hdbuyer, hdseller⟩ := h.dormant
    refine ⟨h.row, hopen, ?_, h.distinct, ?_, ?_⟩
    · rw [List.any_eq_false]
      intro a ha hhide
      obtain ⟨hmem, hstart⟩ := hsince a ha (by rw [hhide]; rfl)
      obtain ⟨-, hwindow, hrel⟩ := mem_activeActions.mp ha
      have hdone := h.visible a hmem hhide (inWindow_before hwindow hstart h.earlier)
      rw [hrel] at hdone
      exact nomatch hdone
    · refine hdbuyer.fit h.buyer hseen ht fun a ha hd => (hsince a ha ?_).2
      rw [hd, Bool.or_true, Bool.true_or]
    · refine hdseller.fit h.seller hseen ht fun a ha hd => (hsince a ha ?_).2
      rw [hd, Bool.or_true]

/-- Reservations, and the operations that take a product or a party away. -/
inductive CompetingOp where
  | reserve (actor product : Nat)
  | productDelete (user product : Nat) (submittedVersion : Int)
  | withdrawAccount (user : Nat) (password : String)
  | applySanction (actor : Actor) (targetType : TargetType) (target : Nat) (reason : String)
      (version : Int) (reauthenticatedAt : Option Time)
  | submitReport (reporter : Nat) (targetType : TargetType) (target : Nat)
      (context : ReportContext) (reason : String)

/-- The program of an operation; what it answers does not matter here. -/
def CompetingOp.run (p : Platform) : CompetingOp → M Unit
  | .reserve actor product => do
      let _ ← Market.reserve actor product
      return ()
  | .productDelete user product submittedVersion => do
      let _ ← Market.productDelete user product submittedVersion
      return ()
  | .withdrawAccount user password => do
      let _ ← Market.withdrawAccount user password
      return ()
  | .applySanction actor targetType target reason version reauthenticatedAt => do
      let _ ← Market.applySanction p actor targetType target reason version reauthenticatedAt
      return ()
  | .submitReport reporter targetType target context reason => do
      let _ ← Market.submitReport reporter targetType target context reason
      return ()

/-- The context of sessions that show what their reservations are made of. -/
def publicCtx (p : Platform) : Ctx Store Lock Exn Obs :=
  market p ⟨fun _ _ => True, fun _ _ _ => True⟩ (fun _ _ _ => True) PublicIff

/-- The sessions of the competing operations keep the discipline of the locks. -/
theorem publicCtx_abides (p : Platform) : Abides p (publicCtx p) :=
  market_abides (everyWrite_lawful _) fun _ _ => trivial

/-- Only reservations have something to show. -/
theorem publicCtx_shows (p : Platform) : ShowsMarks (publicCtx p) := by
  intro v now s hv _
  cases v with
  | reserving product buyer seen seenAt => exact absurd rfl (hv product buyer seen seenAt)
  | _ => trivial

theorem publicCtx_mayRun (ks : List WriteKind) : MayRun (publicCtx p) ks := by
  have hA := publicCtx_abides p
  intro β m hm
  refine Top.atomic hA.lawful (hm _ hA.lawful (hA.permits ks) (publicCtx_shows p)) ?_
  exact fun held s s' h => ⟨h.1, trivial, trivial⟩

/-- Each competing operation is made of transactions. -/
theorem top_competingOp (op : CompetingOp) : Top (publicCtx p) (op.run p) := by
  have hA := publicCtx_abides p
  cases op with
  | reserve actor product =>
      refine Top.bind (fun w hi => ?_) fun _ => Top.ret _
      refine wp_settled (I := fun _ => True) hA.lawful (fun _ _ _ _ h => h) hi trivial
        (fun w' hpend _ _ => body_reserve hA hpend fun _ _ _ _ _ h _ => h.publicIff)
        (fun _ _ _ hp he => hp.env hA he) (fun _ _ hidle _ _ => hidle) fun r w2 _ _ hleave _ => ?_
      exact ⟨⟨hleave.1, trivial, trivial⟩, publish_idle w2⟩
  | productDelete user product version =>
      have hmay : MayRun (publicCtx p) [.products] := publicCtx_mayRun _
      refine Top.bind (top_productDelete (hmay _ fun _ hΓ' hp _ => ?_)) fun _ => Top.ret _
      exact safe_productDeleteBody hΓ' hp user product version
  | withdrawAccount user password =>
      have hmay : MayRun (publicCtx p) withdrawalWrites := publicCtx_mayRun _
      refine Top.bind (top_withdrawAccount (hmay _ fun _ hΓ' hp _ => ?_)) fun _ => Top.ret _
      exact safe_withdrawAccountBody hΓ' hp user password
  | applySanction actor targetType target reason version reauthenticatedAt =>
      have hmay : MayRun (publicCtx p) [.action, .adminAudit] := publicCtx_mayRun _
      refine Top.bind (top_applySanction (fun reason' => hmay _ fun _ hΓ' hp hs => ?_)
        (top_audit (hmay.sub (by decide))) reason) fun _ => Top.ret _
      exact safe_applySanctionBody hΓ' hp hs actor targetType target reason' version
        reauthenticatedAt
  | submitReport reporter targetType target context reason =>
      have hmay : MayRun (publicCtx p) reportWrites := publicCtx_mayRun _
      refine Top.bind (top_submitReport (fun reason' => hmay _ fun _ hΓ' hp hs => ?_) reason)
        fun _ => Top.ret _
      exact safe_submitReportBody hΓ' hp hs reporter targetType target context reason'

/-- **WHAT IS RESERVED**: in every run of reservations among deletions, withdrawals,
    sanctions and reports, a reservation that is about to be inserted is one of a visible
    product between two fit users, if and only if the product has not been archived and no
    sanction has come up since the first look. -/
theorem reservations_public_iff {ι : Type} [DecidableEq ι] (p : Platform)
    (ops : ι → CompetingOp) {s : Store} {now : Time} {c : Config ι Store Lock Exn Obs Unit}
    (hr : Reached s now (fun i => (ops i).run p) c) {i : ι} {at' : Time} {db : Store}
    {x : Product} {buyer : Nat} {seen : List ModerationAction} {seenAt : Time}
    (hm : Event.marked at' db (.reserving x buyer seen seenAt) ∈ (c.sess i).hist) :
    PublicReservation x buyer at' db ↔ NothingSince x buyer seen seenAt at' db := by
  have hfit : Fits (postgres fun _ _ => False) (fun _ : ι => publicCtx p) :=
    market_fits p _ (fun _ => everyWrite_lawful _) _ _
  have hsup : Supported (fun _ => publicCtx p) (fun _ _ w => Idle w)
      (Config.start s now fun i => (ops i).run p) :=
    supported_start hfit.lawful fun i => top_competingOp (ops i) _ ⟨rfl, rfl, rfl⟩
  obtain ⟨-, -, hshown⟩ := run_supported hfit hsup hr fun _ _ _ _ _ => trivial
  exact hshown i at' db _ hm

/-- The product of a reservation that is about to be inserted, and what was live. -/
def reservedProduct : Nat × Store × Obs → Option (Option Time × List ModerationAction)
  | (_, db, .reserving x _ _ _) => some (x.archivedAt, db.actions)
  | _ => none

theorem reserved_of_marks {h : List (Event Store Obs)} {archived : Option Time}
    {actions : List ModerationAction}
    (hm : (marksOf h).filterMap reservedProduct = [(archived, actions)]) :
    ∃ at' db x buyer seen seenAt,
      Event.marked at' db (.reserving x buyer seen seenAt) ∈ h ∧ x.archivedAt = archived ∧
        db.actions = actions := by
  have hmem : (archived, actions) ∈ (marksOf h).filterMap reservedProduct := by
    rw [hm]
    exact List.mem_cons_self
  obtain ⟨⟨at', db, v⟩, hv, hshow⟩ := List.mem_filterMap.mp hmem
  cases v with
  | reserving x buyer seen seenAt =>
      cases hshow
      exact ⟨at', db, x, buyer, seen, seenAt, mem_marksOf.mp hv, rfl, rfl⟩
  | _ => exact nomatch hshow

/-- A product is deleted in one session, and reserved in another. -/
def deleteAndReserve : Fin 2 → CompetingOp
  | 0 => .productDelete 1 11 1
  | 1 => .reserve 2 11

def deleteAndReserveStart : Config (Fin 2) Store Lock Exn Obs Unit :=
  Config.start oneForSale 1000 fun i => (deleteAndReserve i).run plainPlatform

/-- The owner has deleted the product, and it is reserved all the same. -/
theorem archived_reserved : ∃ (c : Config (Fin 2) Store Lock Exn Obs Unit) (at' : Time)
    (db : Store) (x : Product) (buyer : Nat) (seen : List ModerationAction) (seenAt : Time),
    Reached oneForSale 1000 (fun i => (deleteAndReserve i).run plainPlatform) c ∧
      Event.marked at' db (.reserving x buyer seen seenAt) ∈ (c.sess 1).hist ∧
      ¬ PublicReservation x buyer at' db := by
  have hplay : (play validateBalancedJournal [.run 0 100 id, .run 1 100 fun _ => 7]
      deleteAndReserveStart).map
        (fun d => (marksOf (d.sess 1).hist).filterMap reservedProduct) =
      some [(some 1000, [])] := by decide +kernel
  obtain ⟨c, hr, hmarks⟩ := reaches_of_play (D := postgres fun _ _ => False)
    (f := fun d => _) hplay
  obtain ⟨at', db, x, buyer, seen, seenAt, hm, harchived, -⟩ := reserved_of_marks hmarks
  refine ⟨c, at', db, x, buyer, seen, seenAt, hr, hm, fun h => ?_⟩
  rw [h.unarchived] at harchived
  exact nomatch harchived

/-- The reservation first, and nothing of the deletion before it. -/
theorem reservations_public_reserve_first : ∃ (c : Config (Fin 2) Store Lock Exn Obs Unit)
    (at' : Time) (db : Store) (x : Product) (buyer : Nat) (seen : List ModerationAction)
    (seenAt : Time),
    Reached oneForSale 1000 (fun i => (deleteAndReserve i).run plainPlatform) c ∧
      Event.marked at' db (.reserving x buyer seen seenAt) ∈ (c.sess 1).hist ∧
      PublicReservation x buyer at' db := by
  have hplay : (play validateBalancedJournal [.run 1 100 (fun _ => 7), .run 0 100 id]
      deleteAndReserveStart).map
        (fun d => (marksOf (d.sess 1).hist).filterMap reservedProduct) =
      some [(none, [])] := by decide +kernel
  obtain ⟨c, hr, hmarks⟩ := reaches_of_play (D := postgres fun _ _ => False)
    (f := fun d => _) hplay
  obtain ⟨at', db, x, buyer, seen, seenAt, hm, harchived, hactions⟩ := reserved_of_marks hmarks
  refine ⟨c, at', db, x, buyer, seen, seenAt, hr, hm, ?_⟩
  refine (reservations_public_iff plainPlatform deleteAndReserve hr hm).mpr
    ⟨harchived, fun a ha _ => ?_⟩
  rw [activeActions, hactions] at ha
  exact nomatch ha

end Market
