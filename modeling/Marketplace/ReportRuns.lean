import Marketplace.ReportSpecs
import Marketplace.SanctionRuns

/-! # Reports in every run

    Whoever files or evaluates reports holds the lock of their target until it commits, so no
    report is consumed twice, and none is consumed that was not among the five or more that
    brought the restriction about.  Sanctions by staff consume nothing, and neither does any
    other operation. -/

namespace Market

open TxnProgram TxnInterleaving TxnLogic TxnProtection TxnSoundness TxnBody TxnFrames
  TxnInvariants TxnSchedule

variable {p : Platform} {w w' : World Store Lock Obs} {s s' s'' : Store}
  {targetType : TargetType} {target : Nat}

/-! ## Who leaves reports alone -/

/-- Reports and the audit of restrictions stay as they are, and users joined when they did. -/
structure ReportsQuiet (s s' : Store) : Prop where
  reports : s'.reports = s.reports
  auditEvents : s'.auditEvents = s.auditEvents
  joined : s.users.map User.joined <+: s'.users.map User.joined

theorem reportsQuiet_composes : Composes ReportsQuiet where
  refl _ := ⟨rfl, rfl, List.prefix_rfl⟩
  trans _ _ _ h h' := ⟨h'.reports.trans h.reports, h'.auditEvents.trans h.auditEvents,
    h.joined.trans h'.joined⟩

/-- What the reports say stays true, whatever else is added. -/
theorem ReportsQuiet.commit (h : ReportsQuiet s s') (hk : Keeps s s') (hI : ReportInv s) :
    ReportInv s' ∧ ReportsOnward s s' ∧ ∀ l, reportsSame l s s' := by
  have hconsumed : ∀ n, consumedBy n s' = consumedBy n s := by
    intro n
    rw [consumedBy, consumedBy, h.reports]
  have hjust : ∀ {a : ModerationAction}, Justified s a → Justified s' a := fun ha =>
    ha.congr (hconsumed _) (by rw [h.auditEvents]) h.joined
  refine ⟨⟨?_, ?_, ?_, fun r hr => ?_, ?_, fun r hr n hn => ?_, fun e he n hn => ?_⟩,
    ⟨fun r hr => ⟨r, ?_, rfl, fun _ hn => hn⟩, fun a _ => hconsumed a.pk, hk.actions, ?_⟩,
    fun l => ?_⟩
  · rw [h.reports]
    exact hI.keys
  · rw [h.reports]
    exact hI.single
  · rw [h.reports]
    exact hI.once
  · rw [h.reports] at hr
    exact (hI.impartial r hr).keeps hk
  · rw [h.reports]
    exact hI.fits
  · rw [h.reports] at hr
    obtain ⟨a, ha, hpk, hj⟩ := hI.consumed r hr n hn
    exact ⟨a, hk.actions.subset ha, hpk, hjust hj⟩
  · rw [h.auditEvents] at he
    obtain ⟨a, ha, hpk, hj⟩ := hI.audited e he n hn
    exact ⟨a, hk.actions.subset ha, hpk, hjust hj⟩
  · rw [h.reports]
    exact hr
  · exact h.joined
  · rw [reportsSame, h.reports]

/-- The kinds of writes that touch neither reports nor the audit of restrictions. -/
def quietKinds : List WriteKind :=
  [.products, .favorites, .notifications, .newMetric, .metric, .closing, .transferAudit,
    .withdrawal, .task, .action, .bump, .adminAudit, .release, .grant, .sessions, .newSession,
    .trade, .tradeHistory]

/-- Users that are rewritten are members since the same day. -/
theorem joined_updateUser {n : Nat} (f : User → User) (hf : ∀ u, (f u).joined = u.joined)
    (s : Store) : s.users.map User.joined <+: (updateUser n f s).users.map User.joined := by
  have hsame : (updateUser n f s).users.map User.joined = s.users.map User.joined := by
    refine map_identity fun u => ?_
    split
    · exact hf u
    · rfl
  rw [hsame]

theorem reportsQuiet_licensed {k : WriteKind} (hk : k ∈ quietKinds) {held : List Lock}
    {f : Store → Store} (h : Licensed held k f) (s : Store) : ReportsQuiet s (f s) := by
  cases h with
  | bump n _ =>
      refine ⟨rfl, rfl, joined_updateUser _ ?_ s⟩
      exact fun _ => rfl
  | withdrawal u now _ =>
      refine ⟨rfl, rfl, joined_updateUser _ ?_ s⟩
      exact fun _ => rfl
  | report _ _ _ _ => exact absurd hk (by decide)
  | consumed _ _ => exact absurd hk (by decide)
  | auditEvent _ _ => exact absurd hk (by decide)
  | profile _ _ => exact absurd hk (by decide)
  | _ => exact ⟨rfl, rfl, List.prefix_rfl⟩

/-! ## The operations -/

/-- The context of sessions among which reports are filed and consumed. -/
def reportCtx (p : Platform) : Ctx Store Lock Exn Obs :=
  also (market p ⟨fun _ _ => True, fun _ _ _ => True⟩ (fun _ _ _ => True) fun _ _ _ => True)
    (postgres fun _ _ => False) reportDiscipline

theorem reportCtx_abides (p : Platform) : ReportAbides p (reportCtx p) := by
  have hA : Abides p (market p ⟨fun _ _ => True, fun _ _ _ => True⟩ (fun _ _ _ => True)
      fun _ _ _ => True) :=
    market_abides ⟨fun _ => trivial, fun _ _ _ _ _ => trivial⟩ fun _ _ => trivial
  exact ⟨⟨also_lawful hA.lawful _ reportDiscipline_lawful,
    fun held s s' h => hA.rely held s s' h.1, hA.leave, hA.deferred⟩, fun _ he => he,
    fun _ _ _ h => h.2⟩

theorem reportCtx_fits {ι : Type} (p : Platform) :
    Fits (postgres fun _ _ => False) (fun _ : ι => reportCtx p) :=
  fits_also (market_fits p _ (fun _ => ⟨fun _ => trivial, fun _ _ _ _ _ => trivial⟩) _ _)
    reportDiscipline_lawful fun _ _ h => False.elim h

/-- The context of sessions that leave reports alone. -/
def reportQuietCtx (p : Platform) : Ctx Store Lock Exn Obs :=
  market p ⟨fun _ _ => True, fun _ => ReportsQuiet⟩ (fun _ _ _ => True) fun _ _ _ => True

theorem reportQuietCtx_abides (p : Platform) : Abides p (reportQuietCtx p) :=
  market_abides ⟨fun _ => trivial, fun _ _ _ _ _ => trivial⟩ fun _ _ => trivial

/-- Who leaves reports alone keeps what is said of them. -/
theorem reportQuiet_joins (p : Platform) :
    Joins (reportQuietCtx p) (reportQuietCtx p) (reportCtx p) where
  deferred := ⟨rfl, rfl⟩
  fault _ he := ⟨he, he⟩
  rely _ _ _ h := ⟨h.1, h.1⟩
  guar held s s' hg _ := by
    have hcommit := hg.2.2.commit hg.1.1
    exact ⟨⟨hg.1, trivial, trivial⟩, fun hI => ⟨(hcommit hI).1, (hcommit hI).2.1⟩,
      fun l _ hI => ⟨(hcommit hI).1, (hcommit hI).2.2 l⟩⟩
  given _ _ _ h := ⟨h, h⟩
  shown _ _ _ _ _ := trivial

theorem mayRun_reportQuiet : MayRun (reportQuietCtx p) quietKinds := by
  have hA := reportQuietCtx_abides p
  intro β m hm
  exact mayRun_of_frame hA.lawful (fun _ _ _ _ _ => trivial) (hA.permits _)
    reportsQuiet_composes (fun k hk held f hf s => reportsQuiet_licensed hk hf s)
    (fun _ _ _ hleave hquiet => ⟨hleave.1, trivial, hquiet⟩) m hm

/-- Any transactions that follow the locking rules and leave reports alone. -/
def ReportForeign (p : Platform) (m : M Unit) : Prop := Top (reportQuietCtx p) m

theorem foreign_withdrawAccount (user : Nat) (password : String) :
    ReportForeign p (do let _ ← withdrawAccount user password) :=
  Top.bind (top_withdrawAccount ((mayRun_reportQuiet.sub (by decide)) _ fun _ hΓ' hp _ =>
    safe_withdrawAccountBody hΓ' hp user password)) fun _ => Top.ret _

theorem foreign_productDelete (user product : Nat) (version : Int) :
    ReportForeign p (do let _ ← productDelete user product version) :=
  Top.bind (top_productDelete ((mayRun_reportQuiet.sub (by decide)) _ fun _ hΓ' hp _ =>
    safe_productDeleteBody hΓ' hp user product version)) fun _ => Top.ret _

/-- What a session runs: an operation of the moderation, or something else. -/
inductive ReportOp (p : Platform) where
  | moderation (op : SanctionOp)
  | other (m : M Unit) (h : ReportForeign p m)

def ReportOp.run : ReportOp p → M Unit
  | .moderation op => op.run p
  | .other m _ => m

/-- What the operation may fail with.  The policy itself never fails. -/
def ReportOp.mayFail : ReportOp p → Exn → Prop
  | .moderation (.submitReport ..), e => refusal e ∨ ∃ m, e = .duplicateReportError m
  | .moderation (.evaluateThreshold ..), e => refusal e
  | _, _ => True

/-- A transaction that files or evaluates reports. -/
theorem wp_reportTransaction {α : Type} {m : M α} (hi : Idle w) (hI : ReportInv w.db)
    (h : ∀ w : World Store Lock Obs, w.sess.pend = id → ReportInv w.db →
      Body (reportCtx p) m w
        (fun _ w' => ReportEnd targetType target w' w'.sess.pend) refusal) :
    wp (reportCtx p) (atomic m) (fun r _ => ∀ e, r = .error e → refusal e) w := by
  have hR := reportCtx_abides p
  have hΓ := hR.abides.lawful
  refine wp_transaction hΓ (P := fun _ _ w' => ReportInv w'.db ∧
      ReportEnd targetType target w' w'.sess.pend) hi (fun w1 he => ?_)
    (refusal_faults hR.operational) (fun e _ hrefusal _ _ _ e' he' => ?_)
    fun w0 a w1 w2 _ _ hend he2 hleave => ?_
  · have hI1 : ReportInv w1.db := hR.inv he.still.toNear hI
    have hpend : w1.begin.sess.pend = id := by
      rw [World.begin_pend, he.sess]
      exact hi.pend
    exact (h _ hpend hI1).mono fun _ w2 h2 hend => ⟨hR.inv h2.toNear hI1, hend⟩
  · cases he'
    exact hrefusal
  · obtain ⟨hI1, hend⟩ := hend
    have hnear := he2.still.toNear
    have hend2 := hend.near hR hI1 hnear
    rw [← he2.sess] at hend2
    obtain ⟨hI', hon, hsame⟩ := hend2.commit (hR.inv hnear hI1)
    refine ⟨fun _ => ⟨⟨⟨hleave.1, trivial, trivial⟩, fun _ => ⟨hI', hon⟩, fun l hl _ =>
      ⟨hI', hsame l ?_⟩⟩, fun e he => by cases he⟩, fun e he => ?_⟩
    · rintro rfl
      exact hl _ hend2.lock (by cases targetType <;> exact ⟨rfl, rfl⟩)
    · -- the check of the journals fails with a database error
      have hdeferred : validateBalancedJournal w2.db w2.view = some e := he
      rw [validateBalancedJournal] at hdeferred
      split at hdeferred
      · cases hdeferred
      · cases hdeferred
        exact Or.inl rfl

/-- **OPERATIONS**, each in the common context. -/
theorem ReportOp.wp_run (op : ReportOp p) (hi : Idle w) (hI : ReportInv w.db) :
    wp (reportCtx p) op.run (fun r _ => ∀ e, r = .error e → op.mayFail e) w := by
  have hR := reportCtx_abides p
  have hshow : ShowsSanctions (reportCtx p) := fun _ _ _ _ _ _ _ => trivial
  have hquiet : ∀ {m : M Unit}, ReportForeign p m → wp (reportCtx p) m (fun _ _ => True) w :=
    fun hm => wp_mono (fun _ _ _ => trivial) (hm.within (reportQuiet_joins p) w hi)
  have haudit : ∀ a, Top (reportQuietCtx p) (audit a) :=
    top_audit (mayRun_reportQuiet.sub (by decide))
  cases op with
  | other m hm => exact wp_mono (fun _ _ _ _ _ => trivial) (hquiet hm)
  | moderation op =>
      cases op with
      | submitReport reporter targetType target context reason =>
          refine wp_bind (wp_mono (fun r w1 hr => ?_) (?_ : wp (reportCtx p) _ (fun r _ =>
            ∀ e, r = .error e → refusal e ∨ ∃ m, e = .duplicateReportError m) w))
          · cases r with
            | error e => exact fun e' he' => by cases he'; exact hr e rfl
            | ok submission => exact fun e' he' => by cases he'
          · rw [submitReport]
            split
            · exact fun e he => by cases he; exact Or.inl (refusal_report _)
            · next hfits =>
                have hreason : ∀ e, normalizeReason reason = .error e → refusal e := by
                  intro e he
                  rw [normalizeReason] at he
                  split at he
                  · cases he
                    exact refusal_report _
                  · cases he
                generalize normalizeReason reason = answer at hreason
                refine wp_bind ?_
                cases answer with
                | error e => exact fun e' he' => by cases he'; exact Or.inl (hreason e rfl)
                | ok normalized =>
                    refine wp_tryCatch (wp_mono (fun r w1 hr => ?_) (wp_reportTransaction hi hI
                      fun w1 hpend hI1 => body_submitReport_reports hR hshow reporter target
                        hfits normalized hpend hI1))
                    cases r with
                    | ok submission => exact fun e' he' => by cases he'
                    | error e =>
                        have hrefusal := hr e rfl
                        show wp (reportCtx p) _ _ w1
                        split
                        · exact fun e' he' => by cases he'; exact Or.inr ⟨_, rfl⟩
                        · exact fun e' he' => by cases he'; exact Or.inl hrefusal
      | evaluateThreshold targetType target =>
          refine wp_bind (wp_mono (fun r w1 hr => ?_) (wp_reportTransaction hi hI
            fun w1 hpend hI1 => body_evaluateThreshold_reports hR hshow targetType target
              hpend hI1))
          cases r with
          | error e => exact fun e' he' => by cases he'; exact hr e rfl
          | ok action => exact fun e' he' => by cases he'
      | applySanction actor targetType target reason version at' =>
          exact wp_mono (fun _ _ _ _ _ => trivial)
            (hquiet (Top.bind (top_applySanction (fun reason' =>
              (mayRun_reportQuiet.sub (by decide)) _ fun _ hΓ' hp hs =>
                safe_applySanctionBody hΓ' hp hs actor targetType target reason' version at')
              haudit reason) fun _ => Top.ret _))
      | releaseSanction actor sanction reason version at' =>
          exact wp_mono (fun _ _ _ _ _ => trivial)
            (hquiet (Top.bind (top_releaseSanction (fun reason' =>
              (mayRun_reportQuiet.sub (by decide)) _ fun _ hΓ' hp _ =>
                safe_releaseSanctionBody hΓ' hp actor sanction reason' version at')
              haudit reason) fun _ => Top.ret _))

/-! ## Every run -/

section Runs

variable {ι : Type} [DecidableEq ι] {ops : ι → ReportOp p} {now : Time}
  {c c' : Config ι Store Lock Exn Obs Unit}

omit [DecidableEq ι] in
theorem report_supported (h : ReportInv s) : Supported (fun _ => reportCtx p)
    (fun i r _ => ∀ e, r = .error e → (ops i).mayFail e)
    (Config.start s now fun i => (ops i).run) :=
  supported_start (reportCtx_fits p).lawful fun i =>
    (ops i).wp_run (w := ⟨s, now, {}⟩) ⟨rfl, rfl, rfl⟩ h

/-- **RUN**: from one store to a later one. -/
theorem reports_onward (h : ReportInv s) (hr : Reached s now (fun i => (ops i).run) c)
    (hr' : Reaches (postgres fun _ _ => False) c c') (hI : ReportInv c.db) :
    ReportInv c'.db ∧ ReportsOnward c.db c'.db := by
  refine run_onward (J := fun d => ReportInv d ∧ ReportsOnward c.db d) (reportCtx_fits p)
    (report_supported h) (fun _ _ _ h => False.elim h)
    (fun _ _ _ _ hj hg => ?_) hr hr' (fun _ _ _ _ _ => trivial) ⟨hI, ReportsOnward.refl _⟩
  obtain ⟨hI', hon⟩ := hg.2.1 hj.1
  exact ⟨hI', hj.2.trans hon⟩

end Runs

/-- **REPORTS ARE CONSUMED ONCE**: in every interleaving, every report that is consumed was
    consumed by a restriction that rests on enough reports of its own target, made in the week
    before it by members who had no part in what they report; the restriction is audited
    once, with their number; and what it consumed never changes. -/
theorem reports_consumed_once {ι : Type} [DecidableEq ι] (p : Platform) (ops : ι → ReportOp p)
    {s : Store} {now : Time} {c : Config ι Store Lock Exn Obs Unit} (h : ReportInv s)
    (hr : Reached s now (fun i => (ops i).run) c) :
    ReportInv c.db ∧ ∀ c', Reaches (postgres fun _ _ => False) c c' →
      ReportsOnward c.db c'.db := by
  have hI : ReportInv c.db := (reports_onward h (Reaches.refl _ _) hr h).1
  exact ⟨hI, fun c' hr' => (reports_onward h hr hr' hI).2⟩

/-- Where nothing has been reported yet. -/
theorem reportInv_of_none (hreports : s.reports = []) (hevents : s.auditEvents = []) :
    ReportInv s := by
  constructor <;> simp [hreports, hevents]

/-- A user, and members of a week. -/
def sellerAmongMembers : Store where
  users := (List.range 7).map fun n =>
    { pk := n + 1, username := "member", password := some "pw" }
  accounts := [{ pk := 21, user := 7, balance := 0 }]
  ledgerAccounts := [{ pk := 31, kind := .user, mockAccount := some 21, code := "USER:7" }]

/-- Five members report the user, and a sixth one withdraws. -/
def fiveReports : Fin 6 → ReportOp plainPlatform
  | 0 => .moderation (.submitReport 2 .user 1 .profile "spam")
  | 1 => .moderation (.submitReport 3 .user 1 .globalChat "spam")
  | 2 => .moderation (.submitReport 4 .user 1 .profile "spam")
  | 3 => .moderation (.submitReport 5 .user 1 .profile "spam")
  | 4 => .moderation (.submitReport 6 .user 1 .directChat "spam")
  | 5 => .other _ (foreign_withdrawAccount 7 "pw")

/-- The first report waits for the lock of the user, and the last one brings the restriction
    about. -/
theorem reports_consumed_once_five : ∃ c : Config (Fin 6) Store Lock Exn Obs Unit,
    Reached sellerAmongMembers (days 8) (fun i => (fiveReports i).run) c ∧
    (c.db.reports.map (fun r => (r.pk, r.consumedBy)) =
      [(11, some 50), (10, some 50), (12, some 50), (13, some 50), (50, some 50)] ∧
      c.db.actions.map (·.pk) = [50]) ∧
    ReportInv c.db ∧ ∀ c', Reaches (postgres fun _ _ => False) c c' →
      ReportsOnward c.db c'.db := by
  let seen (d : Config (Fin 6) Store Lock Exn Obs Unit) :=
    (d.db.reports.map fun r => (r.pk, r.consumedBy), d.db.actions.map (·.pk))
  have hplay : (play validateBalancedJournal
      [.run 0 2 (fun _ => 10), .run 1 100 (fun _ => 11), .run 0 100 (fun _ => 10),
        .run 5 100 (fun _ => 20), .run 2 100 (fun _ => 12), .run 3 100 (fun _ => 13),
        .run 4 100 (fun _ => 50)]
      (Config.start sellerAmongMembers (days 8) fun i => (fiveReports i).run)).map seen =
      some ([(11, some 50), (10, some 50), (12, some 50), (13, some 50), (50, some 50)],
        [50]) := by decide +kernel
  obtain ⟨c, hr, hseen⟩ := reaches_of_play (D := postgres fun _ _ => False) (f := seen) hplay
  obtain ⟨hreports, hactions⟩ := Prod.mk.inj hseen
  exact ⟨c, hr, ⟨hreports, hactions⟩,
    reports_consumed_once plainPlatform fiveReports (reportInv_of_none rfl rfl) hr⟩

/-- **THE POLICY NEVER FAILS**: in every interleaving, a report that is not accepted is refused,
    is the second one of its reporter, or meets a failure of the database; and an evaluation
    of the threshold is refused or meets one.  No reports that are on file make
    `qualifies_for_action` raise. -/
theorem policy_never_fails {ι : Type} [DecidableEq ι] (p : Platform) (ops : ι → ReportOp p)
    {s : Store} {now : Time} {c : Config ι Store Lock Exn Obs Unit} (h : ReportInv s)
    (hr : Reached s now (fun i => (ops i).run) c) (i : ι) (e : Exn)
    (he : c.prog i = Prog.ofAnswer (.error e)) : (ops i).mayFail e := by
  obtain ⟨w, -, hpost⟩ := run_ended (reportCtx_fits p) (report_supported h) hr
    (fun _ _ _ _ _ => trivial) he
  exact hpost e rfl

/-- One member reports the user twice. -/
def reportTwice : Fin 2 → ReportOp plainPlatform
  | 0 => .moderation (.submitReport 2 .user 1 .profile "spam")
  | 1 => .moderation (.submitReport 2 .user 1 .globalChat "more spam")

/-- The second report waits for the first one, and is a duplicate then. -/
theorem policy_never_fails_twice : ∃ c : Config (Fin 2) Store Lock Exn Obs Unit,
    Reached sellerAmongMembers (days 8) (fun i => (reportTwice i).run) c ∧
    c.prog 1 = Prog.ofAnswer (.error (.duplicateReportError "report cannot be accepted")) ∧
    (reportTwice 1).mayFail (.duplicateReportError "report cannot be accepted") := by
  have hplay : (play validateBalancedJournal
      [.run 1 2 (fun _ => 11), .run 0 100 (fun _ => 10), .run 1 100 (fun _ => 11)]
      (Config.start sellerAmongMembers (days 8) fun i => (reportTwice i).run)).map
        (fun d => decide (answered (d.prog 1) =
          some (.error (.duplicateReportError "report cannot be accepted")))) = some true := by
    decide +kernel
  obtain ⟨c, hr, hanswer⟩ := reaches_of_play (D := postgres fun _ _ => False)
    (f := fun d => _) hplay
  have he := answered_eq (of_decide_eq_true hanswer)
  exact ⟨c, hr, he,
    policy_never_fails plainPlatform reportTwice (reportInv_of_none rfl rfl) hr 1 _ he⟩

end Market
