import Marketplace.AuditSpecs
import Marketplace.SanctionRuns

/-! # The trail in every run

    Whatever else goes on in the market, what the staff have decided since a moment is what
    the audits since that moment tell, in their order: no decision goes without an audit, no
    audit tells of a decision that was not made, and the order is the one in which they took
    effect. -/

namespace Market

open TxnProgram TxnInterleaving TxnLogic TxnProtection TxnSoundness TxnBody TxnFrames
  TxnInvariants TxnSchedule EventLog

variable {p : Platform} {s s' : Store}

/-! ## Two contexts -/

/-- The context of sessions whose commits keep the trail. -/
def trailCtx (p : Platform) : Ctx Store Lock Exn Obs :=
  market p ⟨fun _ _ => True, fun _ s s' => EventsRefer s → EventsRefer s' ∧ trail.Records s s'⟩
    (fun _ _ _ => True) fun _ _ _ => True

/-- The sessions that write the trail keep the discipline of the locks. -/
theorem trailCtx_abides (p : Platform) : Abides p (trailCtx p) :=
  market_abides ⟨fun _ => trivial, fun _ _ _ _ _ => trivial⟩ fun _ _ => trivial

/-- The context of sessions that decide nothing. -/
def trailQuietCtx (p : Platform) : Ctx Store Lock Exn Obs :=
  market p ⟨fun _ _ => True, fun _ => TrailSame⟩ (fun _ _ _ => True) fun _ _ _ => True

/-- So do the sessions that write none. -/
theorem trailQuietCtx_abides (p : Platform) : Abides p (trailQuietCtx p) :=
  market_abides ⟨fun _ => trivial, fun _ _ _ _ _ => trivial⟩ fun _ _ => trivial

/-- Who decides nothing keeps the trail. -/
theorem trailQuiet_joins (p : Platform) :
    Joins (trailQuietCtx p) (trailQuietCtx p) (trailCtx p) where
  deferred := ⟨rfl, rfl⟩
  fault _ he := ⟨he, he⟩
  rely _ _ _ h := ⟨h, h⟩
  guar _ _ _ hg _ := ⟨hg.1, hg.2.1, fun hrefer => ⟨hg.2.2.refer hrefer, hg.2.2.records⟩⟩
  given _ _ _ h := ⟨h, h⟩
  shown _ _ _ h _ := h

/-- Any transactions that follow the locking rules and leave these tables alone. -/
def TrailForeign (p : Platform) (m : M Unit) : Prop := Top (trailQuietCtx p) m

/-- A program without writes of the trail's kinds is quiet about it. -/
theorem mayRun_trailQuiet {ks : List WriteKind} (hks : ∀ k ∈ ks, k ∉ trailKinds) :
    MayRun (trailQuietCtx p) ks := by
  have hA := trailQuietCtx_abides p
  intro β m hm
  exact mayRun_of_frame hA.lawful (fun _ _ _ _ _ => trivial) (hA.permits _) trailSame_composes
    (fun k hk held f hf s => trailSame_licensed (hks k hk) hf s)
    (fun _ _ _ hleave hsame => ⟨hleave.1, trivial, hsame⟩) m hm

/-- A withdrawal writes nothing of the trail. -/
theorem trailForeign_withdrawAccount (user : Nat) (password : String) :
    TrailForeign p (do let _ ← withdrawAccount user password) := by
  have hmay : MayRun (trailQuietCtx p) withdrawalWrites := mayRun_trailQuiet (by decide)
  exact Top.bind (top_withdrawAccount (hmay _ fun _ hΓ' hp _ =>
    safe_withdrawAccountBody hΓ' hp user password)) fun _ => Top.ret _

/-- A deletion by the owner writes nothing of the trail. -/
theorem trailForeign_productDelete (user product : Nat) (version : Int) :
    TrailForeign p (do let _ ← productDelete user product version) := by
  have hmay : MayRun (trailQuietCtx p) [.products] := mayRun_trailQuiet (by decide)
  exact Top.bind (top_productDelete (hmay _ fun _ hΓ' hp _ =>
    safe_productDeleteBody hΓ' hp user product version)) fun _ => Top.ret _

/-! ## The operations -/

/-- Decisions of the staff, reports, and anything else. -/
inductive StaffOp (p : Platform) where
  | applySanction (actor : Actor) (targetType : TargetType) (target : Nat) (reason : String)
      (version : Int) (reauthenticatedAt : Option Time)
  | releaseSanction (actor : Actor) (sanction : Nat) (reason : String) (version : Int)
      (reauthenticatedAt : Option Time)
  | grantScope (actor : Actor) (staff : Nat) (codename : String) (targetType : TargetType)
      (target : Nat) (reason : String) (version : Int) (reauthenticatedAt : Option Time)
  | revokeScope (actor : Actor) (grant : Nat) (reason : String) (version : Int)
      (reauthenticatedAt : Option Time)
  | setReviewVisibility (c : VisibilityCall)
  | submitReport (reporter : Nat) (targetType : TargetType) (target : Nat)
      (context : ReportContext) (reason : String)
  | evaluateThreshold (targetType : TargetType) (target : Nat)
  | other (m : M Unit) (h : TrailForeign p m)

def StaffOp.run : StaffOp p → M Unit
  | .applySanction actor targetType target reason version at' => do
      let _ ← Market.applySanction p actor targetType target reason version at'
  | .releaseSanction actor sanction reason version at' => do
      let _ ← Market.releaseSanction p actor sanction reason version at'
  | .grantScope actor staff codename targetType target reason version at' => do
      let _ ← Market.grantScope p actor staff codename targetType target reason version at'
  | .revokeScope actor grant reason version at' => do
      let _ ← Market.revokeScope p actor grant reason version at'
  | .setReviewVisibility c => do let _ ← c.run p
  | .submitReport reporter targetType target context reason => do
      let _ ← Market.submitReport reporter targetType target context reason
  | .evaluateThreshold targetType target => do let _ ← Market.evaluateThreshold targetType target
  | .other m _ => m

/-- A transaction that ends with a decision and its audit, or with none of both. -/
theorem top_trail {α : Type} {m : M α}
    (h : ∀ w : World Store Lock Obs, w.sess.pend = id → w.sess.frames ≠ [] →
      Body (trailCtx p) m w (fun _ w' => TrailEnd w'.sess.held w'.db w'.sess.pend) anyError) :
    Top (trailCtx p) (atomic m) :=
  Top.atomicEnds (P := fun _ held s f => TrailEnd held s f) (trailCtx_abides p).lawful h
    (fun _ _ _ _ hend hn => hend.near (trailCtx_abides p) hn)
    fun _ _ _ _ hleave hend => ⟨hleave.1, hleave.2, hend.commit⟩

/-- The audit of a refusal, in a transaction of its own, and the error again. -/
theorem top_refusal {α : Type} {a : AdminAudit} (ha : a.result ≠ "SUCCESS") (e : Exn) :
    Top (trailCtx p) (do audit a; raise e : M α) := by
  have hA := trailCtx_abides p
  refine Top.bind (Top.tryCatch (top_trail fun w hpend _ => ?_) fun _ => Top.raise _)
    fun _ => Top.raise e
  refine (body_insertRow hA.lawful anyError_faults trivial fun held _ _ s => ?_).mono
    fun _ w' _ hi => .refused a (AdminAudit.change_refused ha) fun s => ?_
  · exact hA.permits [.adminAudit] .adminAudit (by decide) held _ (.adminAudit a) s
  · rw [hi.pend, hpend]
    exact TrailSame.refl _

theorem top_conflict {α : Type} (actor : Nat) (action targetType : String) (target : Nat)
    (reason : String) (before : JsonObject) (e : Exn) : Top (trailCtx p)
      (do auditConflict actor action targetType target reason before; raise e : M α) := by
  refine top_refusal ?_ e
  show "CONFLICT" ≠ "SUCCESS"
  decide

theorem top_denial {α : Type} (actor : Nat) (action targetType : String) (target : Nat)
    (reason : String) (e : Exn) : Top (trailCtx p)
      (do auditDenial actor action targetType target reason; raise e : M α) := by
  refine top_refusal ?_ e
  show "DENIED" ≠ "SUCCESS"
  decide

theorem top_applySanction_trail (actor : Actor) (targetType : TargetType) (target : Nat)
    (reason : String) (version : Int) (at' : Option Time) :
    Top (trailCtx p) (applySanction p actor targetType target reason version at') := by
  have hA := trailCtx_abides p
  refine Top.bind (Top.ofAnswer _) fun normalized => Top.tryCatch
    (Top.bind (Top.ofAnswer _) fun normalized' => ?_) fun e => ?_
  · -- a review is refused before the transaction
    by_cases htype : targetType = .review
    · subst htype
      exact Top.raise _
    · exact Top.bind (Top.raiseIf _ _) fun _ => top_trail fun w hpend hopen =>
        body_applySanction_trail hA (fun _ _ _ _ _ _ _ => trivial) actor htype target normalized'
          version at' hpend hopen
  · split
    · exact top_conflict _ _ _ _ _ _ _
    · exact top_denial _ _ _ _ _ _
    · exact top_denial _ _ _ _ _ _
    · exact Top.raise _

theorem top_releaseSanction_trail (actor : Actor) (sanction : Nat) (reason : String)
    (version : Int) (at' : Option Time) :
    Top (trailCtx p) (releaseSanction p actor sanction reason version at') := by
  have htarget : Top (trailCtx p) (releaseTarget sanction) :=
    Top.bind (Top.select _) fun _ => Top.ret _
  refine Top.bind (Top.ofAnswer _) fun normalized => Top.tryCatch
    (Top.bind (Top.ofAnswer _) fun normalized' => top_trail fun w hpend hopen =>
      body_releaseSanction_trail (trailCtx_abides p) actor sanction normalized' version at' hpend
        hopen) fun e => ?_
  split
  · exact Top.bind htarget fun _ => top_conflict _ _ _ _ _ _ _
  · exact Top.bind htarget fun _ => top_denial _ _ _ _ _ _
  · exact Top.bind htarget fun _ => top_denial _ _ _ _ _ _
  · exact Top.raise _

theorem top_grantScope_trail (actor : Actor) (staff : Nat) (codename : String)
    (targetType : TargetType) (target : Nat) (reason : String) (version : Int)
    (at' : Option Time) :
    Top (trailCtx p)
      (grantScope p actor staff codename targetType target reason version at') := by
  refine Top.bind (Top.ofAnswer _) fun normalized => Top.tryCatch
    (Top.bind (Top.ofAnswer _) fun normalized' => Top.bind (Top.raiseIf _ _) fun _ =>
      top_trail fun w hpend hopen => body_grantScope_trail (trailCtx_abides p) actor staff
        codename targetType target normalized' version at' hpend hopen) fun e => ?_
  split
  · exact top_conflict _ _ _ _ _ _ _
  · exact top_denial _ _ _ _ _ _
  · exact top_denial _ _ _ _ _ _
  · exact Top.raise _

theorem top_revokeScope_trail (actor : Actor) (grant : Nat) (reason : String) (version : Int)
    (at' : Option Time) :
    Top (trailCtx p) (revokeScope p actor grant reason version at') := by
  have htarget : Top (trailCtx p) (revokeTarget grant) :=
    Top.bind (Top.select _) fun _ => Top.ret _
  refine Top.bind (Top.ofAnswer _) fun normalized => Top.tryCatch
    (Top.bind (Top.ofAnswer _) fun normalized' => top_trail fun w hpend hopen =>
      body_revokeScope_trail (trailCtx_abides p) (fun _ _ _ h => h) actor grant normalized'
        version at' hpend hopen) fun e => ?_
  split
  · exact Top.bind htarget fun _ => top_conflict _ _ _ _ _ _ _
  · exact Top.bind htarget fun _ => top_denial _ _ _ _ _ _
  · exact Top.bind htarget fun _ => top_denial _ _ _ _ _ _
  · exact Top.raise _

/-- **OPERATIONS**, each by its transactions. -/
theorem top_staffOp (op : StaffOp p) : Top (trailCtx p) op.run := by
  have hA := trailCtx_abides p
  have hshow : ShowsSanctions (trailCtx p) := fun _ _ _ _ _ _ _ => trivial
  cases op with
  | applySanction actor targetType target reason version at' =>
      exact Top.bind (top_applySanction_trail _ _ _ _ _ _) fun _ => Top.ret _
  | releaseSanction actor sanction reason version at' =>
      exact Top.bind (top_releaseSanction_trail _ _ _ _ _) fun _ => Top.ret _
  | grantScope actor staff codename targetType target reason version at' =>
      exact Top.bind (top_grantScope_trail _ _ _ _ _ _ _ _) fun _ => Top.ret _
  | revokeScope actor grant reason version at' =>
      exact Top.bind (top_revokeScope_trail _ _ _ _ _) fun _ => Top.ret _
  | setReviewVisibility c =>
      refine Top.bind (Top.bind (Top.ofAnswer _) fun reason => top_trail fun w hpend hopen => ?_)
        fun _ => Top.ret _
      exact body_setReviewVisibility_trail hA (fun _ he => he) (fun _ _ _ => trivial) c.actor
        c.review c.kind reason c.key c.reauthenticatedAt hpend hopen
  | submitReport reporter targetType target context reason =>
      refine Top.bind (top_submitReport (fun reason' => ?_) reason) fun _ => Top.ret _
      exact top_trail fun w hpend hopen =>
        body_submitReport_trail hA hshow reporter targetType target context reason' hpend hopen
  | evaluateThreshold targetType target =>
      refine Top.bind ?_ fun _ => Top.ret _
      exact top_trail fun w hpend hopen =>
        body_evaluateThreshold_trail hA hshow targetType target hpend hopen
  | other m hm => exact hm.within (trailQuiet_joins p)

/-! ## Every run -/

section Runs

variable {ι : Type} [DecidableEq ι] {ops : ι → StaffOp p} {now : Time}
  {c c' : Config ι Store Lock Exn Obs Unit}

omit [DecidableEq ι] in
/-- The sessions fit the database together. -/
theorem trailCtx_fits : Fits (postgres fun _ _ => False) (fun _ : ι => trailCtx p) :=
  market_fits p _ (fun _ => ⟨fun _ => trivial, fun _ _ _ _ _ => trivial⟩) _ _

/-- **RUN**: from one store reached to a later one. -/
theorem trail_onward (hr : Reached s now (fun i => (ops i).run) c)
    (hr' : Reaches (postgres fun _ _ => False) c c') (h : EventsRefer c.db) :
    EventsRefer c'.db ∧ trail.Records c.db c'.db := by
  refine top_onward (I := fun d => EventsRefer d ∧ trail.Records c.db d) trailCtx_fits
    (fun i => top_staffOp (ops i)) (fun _ _ _ h => False.elim h) (fun _ _ _ _ hI hg => ?_) hr hr'
    (fun _ _ _ _ _ => trivial) ⟨h, Projection.Records.refl _⟩
  obtain ⟨hrefer, hrecords⟩ := hg.2.2 hI.1
  exact ⟨hrefer, hI.2.trans hrecords⟩

end Runs

/-- **THE TRAIL TELLS ALL**: in every interleaving, no audit of the staff is ever changed or
    removed, and the sanctions, releases, scopes and decisions about reviews of a later store
    are those of an earlier one, changed by what the audits between the two say. -/
theorem decisions_replayed {ι : Type} [DecidableEq ι] (p : Platform) (ops : ι → StaffOp p)
    {s : Store} {now : Time} {c : Config ι Store Lock Exn Obs Unit} (h : EventsRefer s)
    (hr : Reached s now (fun i => (ops i).run) c) :
    ∀ c', Reaches (postgres fun _ _ => False) c c' →
      c.db.adminAudits <+: c'.db.adminAudits ∧
      managedIn c'.db = trail.replay (trail.since c.db c'.db) (managedIn c.db) := by
  have hrefer : EventsRefer c.db := (trail_onward (Reaches.refl _ _) hr h).1
  intro c' hr'
  have hrecords : trail.Records c.db c'.db := (trail_onward hr hr' hrefer).2
  exact ⟨hrecords.log_prefix, hrecords.view_eq⟩

/-- Where the policy has not audited anything. -/
theorem eventsRefer_of_none (h : s.auditEvents = []) : EventsRefer s := by
  intro e he
  rw [h] at he
  cases he

/-- A user, two members of staff, one of them with no scope, and who administers scopes. -/
def staffedMarket : Store where
  users := [{ pk := 1, username := "seller_one" },
    { pk := 2, username := "staff_one", isStaff := true },
    { pk := 3, username := "staff_two", isStaff := true },
    { pk := 4, username := "admin_one", isStaff := true },
    { pk := 5, username := "leaver_one", password := some "pw" }]
  accounts := [{ pk := 21, user := 5, balance := 0 }]
  ledgerAccounts := [{ pk := 31, kind := .user, mockAccount := some 21, code := "USER:5" }]

/-- Who administers scopes. -/
def scopeAdmin : Actor := ⟨4, true, true, true, fun _ => true, true⟩

/-- A scope is granted, used and revoked; another sanction is refused, and a user withdraws. -/
def grantSanctionRevoke : Fin 5 → StaffOp plainPlatform
  | 0 => .grantScope scopeAdmin 2 "apply_sanction" .user 1 "covers the evening" 0 (some 1000)
  | 1 => .applySanction (staffMember 2) .user 1 "spam in many rooms" 0 (some 1000)
  | 2 => .revokeScope scopeAdmin 11 "covered the evening" 1 (some 1000)
  | 3 => .applySanction (staffMember 3) .user 1 "spam in many rooms" 0 (some 1000)
  | 4 => .other _ (trailForeign_withdrawAccount 5 "pw")

def grantSanctionRevokeStart : Config (Fin 5) Store Lock Exn Obs Unit :=
  Config.start staffedMarket 1000 fun i => (grantSanctionRevoke i).run

/-- The audits of this run tell of a grant, a sanction and a revocation. -/
theorem decisions_replayed_evening : ∃ c c' : Config (Fin 5) Store Lock Exn Obs Unit,
    Reached staffedMarket 1000 (fun i => (grantSanctionRevoke i).run) c ∧
    Reaches (postgres fun _ _ => False) c c' ∧
    (c.db.adminAudits.map fun a => (a.action, a.result)) = [("grant", "SUCCESS")] ∧
    ((c'.db.adminAudits.map fun a => (a.action, a.result)) =
        [("grant", "SUCCESS"), ("apply", "DENIED"), ("apply", "SUCCESS"),
          ("revoke", "SUCCESS")] ∧
      c'.db.users.map (·.withdrawnAt.isSome) = [false, false, false, false, true]) ∧
    managedIn c'.db = trail.replay (trail.since c.db c'.db) (managedIn c.db) := by
  let audits (d : Config (Fin 5) Store Lock Exn Obs Unit) :=
    d.db.adminAudits.map fun a => (a.action, a.result)
  let seen (d : Config (Fin 5) Store Lock Exn Obs Unit) :=
    (audits d, d.db.users.map (·.withdrawnAt.isSome))
  have hplay : ((play validateBalancedJournal [.run 0 100 (fun _ => 11), .run 1 2 (fun _ => 12)]
      grantSanctionRevokeStart).bind fun d =>
        (play validateBalancedJournal [.run 3 100 (fun _ => 13), .run 1 100 (fun _ => 12),
          .run 4 100 id, .run 2 100 id] d).map fun d' => (audits d, seen d')) =
      some ([("grant", "SUCCESS")], ([("grant", "SUCCESS"), ("apply", "DENIED"),
        ("apply", "SUCCESS"), ("revoke", "SUCCESS")], [false, false, false, false, true])) := by
    decide +kernel
  obtain ⟨c, c', hr, hr', hfirst, hlater⟩ := reaches_of_plays (D := postgres fun _ _ => False)
    (f := audits) (g := seen) hplay
  obtain ⟨hall, hleft⟩ := Prod.mk.inj hlater
  exact ⟨c, c', hr, hr', hfirst, ⟨hall, hleft⟩,
    (decisions_replayed plainPlatform grantSanctionRevoke (eventsRefer_of_none rfl) hr c' hr').2⟩

end Market
