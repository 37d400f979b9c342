import Mathlib.Data.List.Pairwise
import Marketplace.ReportInvariant

/-! # The transactions that file and evaluate reports

    `submit_report` files a report of the target that it has locked, and evaluates the
    threshold at once, with the new report among those that count; `evaluate_threshold`
    evaluates only.  Each of the two ends as `ReportEnd` tells. -/

namespace Market

open TxnProgram TxnInterleaving TxnLogic TxnProtection TxnBody TxnFrames TxnInvariants
  KeyedGroups

variable {p : Platform} {Γ : Ctx Store Lock Exn Obs} {w w' : World Store Lock Obs}
  {s s' : Store} {targetType : TargetType} {target : Nat} {clock : Time}
  {r : Option AbuseReport} {taken : List AbuseReport}

/-! ## The errors of a refusal -/

/-- A report is refused, or the database fails. -/
def refusal (e : Exn) : Prop := e.isDatabaseError = true ∨ ∃ m, e = .reportSubmissionError m

/-- The errors of the database are among the refusals. -/
theorem refusal_faults (hop : OperationalFaults Γ) : Faults Γ refusal := by
  intro e he
  obtain ⟨sqlstate, rfl⟩ := hop e he
  exact Or.inl rfl

theorem refusal_report (m : String) : refusal (.reportSubmissionError m) := Or.inr ⟨m, rfl⟩

/-- What a look for a row of its own may raise besides. -/
def missing (e : Exn) : Prop := refusal e ∨ ∃ t, e = .doesNotExist t

theorem missing_faults (hF : Faults Γ refusal) : Faults Γ missing := fun e he => Or.inl (hF e he)

/-- A target that is not there is a refusal. -/
theorem look_missing (hΓ : Lawful Γ) {α : Type} {m : M α} {P : α → World Store Lock Obs → Prop}
    {w : World Store Lock Obs} (h : Look Γ m w P missing) :
    Look Γ (Prog.tryCatch m fun
      | .doesNotExist _ => raise (.reportSubmissionError "report cannot be accepted")
      | e => raise e) w P refusal := by
  refine Look.tryCatch hΓ h fun e w1 _ he => ?_
  split
  · exact Look.raise hΓ (refusal_report _)
  · next hne =>
      refine Look.raise hΓ (he.resolve_right ?_)
      rintro ⟨t, rfl⟩
      exact hne t rfl

/-! ## The reports that count -/

/-- Who may contribute has been a member for long enough. -/
theorem look_reporterCanContribute_age (hΓ : Lawful Γ) (hF : Faults Γ refusal) (reporter : User)
    (now : Time) :
    Look Γ (reporterCanContribute reporter now) w
      (fun b _ => b = true → reporter.dateJoined + MIN_REPORTER_AGE ≤ now) refusal := by
  rw [reporterCanContribute]
  split
  · next heligible =>
      rw [isReporterEligible, Bool.and_eq_true, decide_eq_true_iff] at heligible
      exact Look.bind hΓ (look_effectiveUserStatus hΓ hF _ _) fun _ _ _ _ =>
        Look.ret hΓ fun _ => heligible.2
  · exact Look.ret hΓ fun h => by cases h

/-- What the loop has made of the rows: some of the reports, by context and reporter. -/
structure EligibleReports (now : Time) (rows : List (AbuseReport × User))
    (acc out : List AbuseReport × List (ReportContext × List Nat))
    (taken : List AbuseReport) : Prop where
  sub : taken.Sublist (rows.map Prod.fst)
  reports : out.1 = acc.1 ++ taken
  groups : out.2 = fileAll (taken.map fun x => (x.context, x.reporter)) acc.2
  member : ∀ x ∈ taken, ∃ u, (x, u) ∈ rows ∧ u.dateJoined + MIN_REPORTER_AGE ≤ now

/-- **LOOP** of `_qualifying_reports`. -/
theorem look_eligibleReports (hΓ : Lawful Γ) (hF : Faults Γ refusal) (now : Time)
    (rows : List (AbuseReport × User)) :
    ∀ {w : World Store Lock Obs} (acc : List AbuseReport × List (ReportContext × List Nat)),
      Look Γ (eligibleReports now rows acc) w
        (fun out _ => ∃ taken, EligibleReports now rows acc out taken) refusal := by
  induction rows with
  | nil =>
      intro w acc
      refine Look.ret hΓ ⟨[], List.Sublist.refl _, (List.append_nil _).symm, rfl, ?_⟩
      intro x hx
      cases hx
  | cons row rows ih =>
      obtain ⟨report, reporter⟩ := row
      rintro w ⟨eligible, byContext⟩
      refine Look.bind hΓ (look_reporterCanContribute_age hΓ hF reporter now)
        fun canContribute w1 _ hage => ?_
      cases canContribute with
      | true =>
          refine (ih _).mono ?_
          rintro out w2 - ⟨taken, h⟩
          refine ⟨report :: taken, h.sub.cons_cons report, ?_, ?_, fun x hx => ?_⟩
          · rw [h.reports, List.append_assoc]
            rfl
          · rw [h.groups, addReporter_eq]
            rfl
          · rcases List.mem_cons.mp hx with rfl | hx
            · exact ⟨reporter, List.mem_cons_self, hage rfl⟩
            · obtain ⟨u, hu, hjoined⟩ := h.member x hx
              exact ⟨u, List.mem_cons_of_mem _ hu, hjoined⟩
      | false =>
          refine (ih _).mono ?_
          rintro out w2 - ⟨taken, h⟩
          refine ⟨taken, h.sub.cons report, h.reports, h.groups, fun x hx => ?_⟩
          obtain ⟨u, hu, hjoined⟩ := h.member x hx
          exact ⟨u, List.mem_cons_of_mem _ hu, hjoined⟩

/-- What `_qualifying_reports` returns. -/
structure Qualifying (targetType : TargetType) (target : Nat) (clock : Time)
    (r : Option AbuseReport) (taken : List AbuseReport)
    (byContext : List (ReportContext × List Nat)) (s : Store) : Prop where
  distinct : (taken.map (·.pk)).Nodup
  there : ∀ x ∈ taken, x ∈ (filed r s).reports
  awaiting : ∀ x ∈ taken, x.targetType = targetType ∧ x.targets targetType target = true ∧
    x.consumedBy = none ∧ clock ≤ x.createdAt + days 7 ∧ x.createdAt ≤ clock
  member : ∀ x ∈ taken, ∃ u ∈ s.users, u.pk = x.reporter ∧
    u.dateJoined + MIN_REPORTER_AGE ≤ clock
  groups : byContext = fileAll (taken.map fun x => (x.context, x.reporter)) []
  judged : ∃ b, qualifiesForAction targetType byContext = .ok b

/-- The reports that have a reporter are among the reports. -/
theorem filterMap_fst_sublist {α β : Type} (f : α → Option β) (l : List α) :
    ((l.filterMap fun a => (f a).map fun b => (a, b)).map Prod.fst).Sublist l := by
  induction l with
  | nil => exact List.Sublist.refl _
  | cons a l ih =>
      rw [List.filterMap_cons]
      cases h : f a with
      | none => exact ih.cons a
      | some b => exact ih.cons_cons a

instance : Std.Symm FiledOnce where
  symm a b h hreporter := by
    obtain ⟨huser, hproduct⟩ := h hreporter.symm
    exact ⟨fun n hb ha => huser n ha hb, fun n hb ha => hproduct n ha hb⟩

/-- Two reports of one reporter have different targets. -/
theorem FiledOnce.not_targets {a b : AbuseReport} (h : FiledOnce a b)
    (hreporter : a.reporter = b.reporter) (ha : a.targets targetType target = true)
    (hb : b.targets targetType target = true) : False := by
  obtain ⟨huser, hproduct⟩ := h hreporter
  cases targetType with
  | user => exact huser target (eq_of_beq ha) (eq_of_beq hb)
  | product => exact hproduct target (eq_of_beq ha) (eq_of_beq hb)
  | review => exact hproduct target (eq_of_beq ha) (eq_of_beq hb)

/-- The condition of the query for the reports of the target. -/
def AbuseReport.awaits (targetType : TargetType) (target : Nat) (clock : Time)
    (r : AbuseReport) : Bool :=
  r.targetType == targetType && r.consumedBy.isNone && r.targets targetType target &&
    decide (clock ≤ r.createdAt + days 7) && decide (r.createdAt ≤ clock)

/-- The reports that count are those of one moment, the new one included. -/
theorem look_qualifyingReports (hΓ : Lawful Γ) (hF : Faults Γ refusal)
    (hpend : w.sess.pend = filed r)
    (hI : ∀ w', Still Γ w w' → ReportInv (filed r w'.db)) :
    Look Γ (qualifyingReports targetType target clock) w (fun out w' => ∃ w1, Still Γ w w1 ∧
      Still Γ w1 w' ∧ Qualifying targetType target clock r out.1 out.2 w1.db) refusal := by
  refine Look.bind hΓ (look_fetch hF _) fun rows w1 h1 hrows => ?_
  have hview : w1.view = filed r w1.db := by
    show w1.sess.pend w1.db = _
    rw [h1.pend, hpend]
  rw [hview] at hrows
  refine (look_eligibleReports hΓ hF clock rows _).mono ?_
  rintro ⟨reports, byContext⟩ w2 h2 ⟨taken, h⟩
  obtain rfl : reports = taken := h.reports
  -- the rows of the query, sorted, and those of them that have a reporter
  let chosen := (filed r w1.db).reports.filter (·.awaits targetType target clock)
  let sorted := chosen.insertionSort fun a b =>
    a.createdAt < b.createdAt ∨ a.createdAt = b.createdAt ∧ a.pk ≤ b.pk
  have hperm : sorted.Perm chosen := List.perm_insertionSort _ _
  have hsub : reports.Sublist sorted := by
    refine h.sub.trans ?_
    rw [hrows]
    exact filterMap_fst_sublist _ _
  have hmem : ∀ x ∈ reports, x ∈ (filed r w1.db).reports ∧
      x.awaits targetType target clock = true := fun x hx =>
    List.mem_filter.mp (hperm.subset (hsub.subset hx))
  have hI1 := hI w1 h1
  have hjudged : ∃ b, qualifiesForAction targetType byContext = .ok b := by
    have hgroups : byContext = _ := h.groups
    rw [hgroups]
    refine qualifies_total (fun x hx => ?_) fun x hx y hy hreporter => ?_
    · have hfits := hI1.fits x (hmem x hx).1
      have hawaits := (hmem x hx).2
      simp only [AbuseReport.awaits, Bool.and_eq_true, beq_iff_eq] at hawaits
      rw [hawaits.1.1.1.1] at hfits
      exact hfits
    · -- two reports of the target from one reporter are the same
      have hxt := (hmem x hx).2
      have hyt := (hmem y hy).2
      simp only [AbuseReport.awaits, Bool.and_eq_true] at hxt hyt
      by_contra hcontext
      have hne : x ≠ y := fun he => hcontext (congrArg (·.context) he)
      exact (hI1.once.forall (hmem x hx).1 (hmem y hy).1 hne).not_targets
        hreporter hxt.1.1.2 hyt.1.1.2
  refine ⟨w1, h1, h2, ?_, fun x hx => (hmem x hx).1, fun x hx => ?_, fun x hx => ?_, h.groups,
    hjudged⟩
  · have hkeys : (chosen.map (·.pk)).Nodup :=
      hI1.keys.sublist (List.Sublist.map _ List.filter_sublist)
    exact ((hperm.map _).nodup_iff.mpr hkeys).sublist (hsub.map _)
  · have hawaits := (hmem x hx).2
    simp only [AbuseReport.awaits, Bool.and_eq_true, decide_eq_true_eq, beq_iff_eq,
      Option.isNone_iff_eq_none] at hawaits
    exact ⟨hawaits.1.1.1.1, hawaits.1.1.2, hawaits.1.1.1.2, hawaits.1.2, hawaits.2⟩
  · obtain ⟨u, hu, hage⟩ := h.member x hx
    rw [hrows, List.mem_filterMap] at hu
    obtain ⟨y, -, hy⟩ := hu
    obtain ⟨v, hv, hpair⟩ := Option.map_eq_some_iff.mp hy
    cases hpair
    have hpk := List.find?_some hv
    have hin : u ∈ (filed r w1.db).users := List.mem_of_find?_eq_some hv
    refine ⟨u, ?_, eq_of_beq hpk, hage⟩
    cases r <;> exact hin

/-! ## A restriction -/

/-- The writes of `createAction`: nobody had the primary key. -/
theorem body_createAction_key {F : Exn → Prop} (hA : Abides p Γ) (hF : Faults Γ F)
    (hdup : F .integrityError) (hlock : targetLock targetType target ∈ w.sess.held)
    (hpend : ∀ s, (w.sess.pend s).actions = s.actions) (startsAt : Time) :
    Body Γ (createAction targetType target startsAt) w (fun a w' =>
      ∃ n, a = sanctionRow n targetType target startsAt ∧ Settled (.pk .action n) w' ∧
        w'.sess.pend = fun s => addAction a (w.sess.pend s)) F := by
  have hΓ := hA.lawful
  refine Body.look hΓ Look.fresh fun n w1 h1 _ => ?_
  have hrow : Body Γ (do
      insertRow [.pk .action n] (addAction (sanctionRow n targetType target startsAt))
      return sanctionRow n targetType target startsAt : M ModerationAction) w1
      (fun a w' => ∃ n, a = sanctionRow n targetType target startsAt ∧
        Settled (.pk .action n) w' ∧
        w'.sess.pend = fun s => addAction a (w.sess.pend s)) F := by
    refine Body.bind hΓ (body_insertRow hΓ hF hdup
      fun held hsub hkeys s => hA.leave _ _ _ (respects_addAction ?_ ?_))
      fun _ w2 _ hi => Body.ret hΓ ⟨n, rfl, ?_, ?_⟩
    · cases targetType <;> exact hkeys _ List.mem_cons_self
    · have hl := hsub (h1.held hlock)
      cases targetType with
      | user => exact ⟨fun m hm => (by cases hm; exact hl), fun _ hm => (by cases hm)⟩
      | product => exact ⟨fun _ hm => (by cases hm), fun m hm => (by cases hm; exact hl)⟩
      | review => exact ⟨fun _ hm => (by cases hm), fun m hm => (by cases hm; exact hl)⟩
    · refine hi.settled hA List.mem_cons_self fun s hs => ?_
      have hsame : (w1.sess.pend s).actions = s.actions := by
        rw [h1.pend]
        exact hpend s
      rw [← hs]
      show s.actions.any _ = (w1.sess.pend s).actions.any _
      rw [hsame]
    · rw [hi.pend, h1.pend]
  cases targetType <;> exact hrow

theorem body_revokeSessions_refusal (hA : Abides p Γ) (hF : Faults Γ refusal)
    (targetType : TargetType) (target : Nat) :
    Body Γ (revokeSessions targetType target) w (fun _ w' =>
      w'.sess.pend = fun s => bumpTarget targetType target (w.sess.pend s)) refusal := by
  have hΓ := hA.lawful
  rw [revokeSessions]
  split
  · next htype =>
      refine (body_updateRows hΓ hF fun held _ hlocks s => hA.leave _ _ _
        (respects_updateUser (f := fun u => { u with authEpoch := u.authEpoch + 1 })
          (fun _ _ => rfl) (hlocks _ List.mem_cons_self))).mono fun _ w1 _ hp => ?_
      rw [hp.1]
      funext s
      rw [bumpTarget, if_pos htype]
      rfl
  · next htype =>
      refine Body.ret hΓ ?_
      funext s
      rw [bumpTarget, if_neg htype]

/-- The revocation of sessions leaves the reports. -/
theorem sameReports_bumpTarget (s : Store) :
    SameReports s (bumpTarget targetType target s) := by
  rw [bumpTarget]
  split
  · refine ⟨rfl, rfl, rfl, rfl, ?_⟩
    show (s.users.map fun u => if u.pk = target then { u with authEpoch := u.authEpoch + 1 }
      else u).map User.joined = _
    refine map_identity fun u => ?_
    split <;> rfl
  · exact sameReports_composes.refl s

/-- An audit row leaves the reports. -/
theorem SameReports.audited (h : SameReports s s') (e : AuditEvent) :
    SameReports (addAuditEvent e s) (addAuditEvent e s') :=
  { h with auditEvents := congrArg (· ++ [e]) h.auditEvents }

/-- The event that `_evaluate_locked` records. -/
def restrictionEvent (targetType : TargetType) (target : Nat) (actor : Option Nat)
    (action count : Nat) : AuditEvent :=
  { eventType := "MODERATION_ACTION_APPLIED", actor := actor, action := some action,
    details := [("target_type", .str targetType.text), ("target_id", .num target),
      ("consumed_report_count", .num count), ("duration_days", .num 7)] }

/-- **RESTRICTION**: the reports that were counted are consumed. -/
theorem body_applyAction_reports (hR : ReportAbides p Γ) (actor : Option Nat)
    (hr : ∀ x, r = some x → Filing targetType target x w)
    (hc : Gathered targetType target clock r taken w) (hI : ReportInv w.db)
    (hpend : w.sess.pend = filed r) :
    Body Γ (applyAction targetType target clock actor taken) w
      (fun _ w' => ReportEnd targetType target w' w'.sess.pend) refusal := by
  have hA := hR.abides
  have hΓ := hA.lawful
  have hF := refusal_faults hR.operational
  have hactions : ∀ s, (w.sess.pend s).actions = s.actions := by
    intro s
    rw [hpend]
    cases r <;> rfl
  refine Body.bind hΓ (body_createAction_key hA hF (Or.inl rfl) hc.lock hactions clock)
    fun a w1 h1 ⟨n, ha, hkey, hp1⟩ => ?_
  have hpk : a.pk = n := by
    rw [ha]
    cases targetType <;> rfl
  rw [hpk]
  refine Body.bind hΓ (body_updateRows hΓ hF fun _ _ _ s => hA.leave _ _ _
    (show Respects p _ s (consumeReports (taken.map (·.pk)) n s) from
      respects_consumeReports)) fun _ w2 h2 hp2 => ?_
  refine Body.bind hΓ (body_revokeSessions_refusal hA hF targetType target) fun _ w3 h3 hp3 => ?_
  have hp : w3.sess.pend = fun s => bumpTarget targetType target
      (consumeReports (taken.map (·.pk)) n
        (addAction (sanctionRow n targetType target clock) (filed r s))) := by
    rw [hp3, hp2.1, hp1, ha, hpend]
  refine Body.bind hΓ (body_insertRow hΓ hF (Or.inl rfl) fun held _ hkeys s =>
    hA.leave _ _ _ (respects_addAuditEvent fun m hm => ?_)) fun _ w4 h4 hi =>
      Body.ret hΓ ?_
  · cases hm
    exact hkeys _ List.mem_cons_self
  have h14 : Near Γ w1 w4 := h2.toNear.trans hΓ (h3.toNear.trans hΓ h4.toNear)
  have h04 : Near Γ w w4 := h1.toNear.trans hΓ h14
  refine .restriction r clock n taken (restrictionEvent targetType target actor n taken.length)
    (fun x hx => (hr x hx).near hA h04) (hc.near hR hI h04) (hkey.near hA h14)
    (hi.settled hA List.mem_cons_self fun s hs => ?_) ⟨rfl, rfl, rfl⟩ fun s => ?_
  · have hsame : (w3.sess.pend s).auditEvents = s.auditEvents := by
      rw [hp, (sameReports_bumpTarget _).auditEvents]
      cases r <;> rfl
    rw [← hs]
    show s.auditEvents.any _ = (w3.sess.pend s).auditEvents.any _
    rw [hsame]
  · rw [hi.pend, hp]
    exact (sameReports_bumpTarget _).audited _

/-- **SPECIFICATION** of `_evaluate_locked`, after the report that was filed, if one was. -/
theorem body_evaluateLocked_reports (hR : ReportAbides p Γ) (hshow : ShowsSanctions Γ)
    (actor : Option Nat) (hlock : targetLock targetType target ∈ w.sess.held)
    (hr : ∀ x, r = some x → Filing targetType target x w) (hI : ReportInv w.db)
    (hpend : w.sess.pend = filed r) :
    Body Γ (evaluateLocked targetType target clock actor) w
      (fun _ w' => ReportEnd targetType target w' w'.sess.pend) refusal := by
  have hA := hR.abides
  have hΓ := hA.lawful
  have hF := refusal_faults hR.operational
  have hkept : ∀ {w'}, Still Γ w w' → ReportEnd targetType target w' w'.sess.pend := by
    intro w' h
    refine .filing r (h.held hlock) (fun x hx => (hr x hx).near hA h.toNear) fun s => ?_
    rw [h.pend, hpend]
    exact sameReports_composes.refl _
  refine Body.look hΓ (look_fetchNow hF _) fun ⟨active, checkedAt⟩ w1 h1 _ => ?_
  cases active with
  | some a => exact Body.ret hΓ (hkept h1)
  | none =>
      have hI1 : ReportInv w1.db := hR.inv h1.toNear hI
      refine Body.look hΓ (look_qualifyingReports hΓ hF (h1.pend.trans hpend) fun w' h' => ?_)
        fun ⟨reports, byContext⟩ w2 h2 ⟨w0, h10, h02, hq⟩ => ?_
      · have h := h1.trans hΓ h'
        exact filed_inv (fun x hx => (hr x hx).near hA h.toNear) (hR.inv h.toNear hI)
      refine Body.look (P := fun b _ => qualifiesForAction targetType byContext = .ok b) hΓ ?_
        fun qualifies w3 h3 hqualifies => ?_
      · obtain ⟨b, hb⟩ := hq.judged
        rw [hb]
        exact Look.ret hΓ rfl
      have h03 : Still Γ w0 w3 := h02.trans hΓ h3
      have hw0 : Still Γ w w0 := h1.trans hΓ h10
      cases qualifies with
      | false => exact Body.ret hΓ (hkept (hw0.trans hΓ h03))
      | true =>
          have hthreshold : Threshold targetType reports := by
            have hgroups : byContext = _ := hq.groups
            rw [hgroups] at hqualifies
            exact threshold_of_qualifies hqualifies
          have hc : Gathered targetType target clock r reports w0 :=
            ⟨hw0.held hlock, hq.distinct, hq.there, hq.awaiting, hq.member, hthreshold⟩
          have hI0 : ReportInv w0.db := hR.inv hw0.toNear hI
          refine Body.look hΓ (Look.observe fun w' _ hgiven => hshow _ _ _ _ _ _ hgiven)
            fun _ w4 h4 _ => ?_
          have h04 : Near Γ w0 w4 := (h03.trans hΓ h4).toNear
          have hw4 : Near Γ w w4 := hw0.toNear.trans hΓ h04
          refine Body.bind hΓ (body_applyAction_reports hR actor
            (fun x hx => (hr x hx).near hA hw4) (hc.near hR hI0 h04) (hR.inv hw4 hI) ?_)
            fun _ w5 _ hend => Body.ret hΓ hend
          rw [h4.pend, h03.pend, hw0.pend, hpend]

/-! ## A report -/

/-- The parties that are locked: the user, or the product with its owner. -/
inductive PartiesOf (targetType : TargetType) (target : Nat) (parties : SubmissionParties)
    (s : Store) : Prop where
  | user (u : User) : targetType = .user → parties.targetUser = some u →
      parties.targetProduct = none → u.pk = target → PartiesOf targetType target parties s
  | product (q : Product) : targetType ≠ .user → parties.targetUser = none →
      parties.targetProduct = some q → q.pk = target →
      (∃ x ∈ s.products, x.identity = q.identity) → PartiesOf targetType target parties s

/-- The parties of a target are the same as long as rows keep their identity. -/
theorem PartiesOf.keeps {parties : SubmissionParties} (h : PartiesOf targetType target parties s)
    (hk : Keeps s s') : PartiesOf targetType target parties s' := by
  cases h with
  | user u htype huser hproduct hpk => exact .user u htype huser hproduct hpk
  | product q htype huser hproduct hpk hrow =>
      refine .product q htype huser hproduct hpk ?_
      obtain ⟨x, hx, hsame⟩ := hrow
      obtain ⟨y, hy, hxy⟩ := List.mem_map.mp (hk.products.subset (List.mem_map_of_mem hx))
      exact ⟨y, hy, hxy.trans hsame⟩

theorem look_lockSubmissionParties_of (hA : Abides p Γ) (hF : Faults Γ refusal) (reporter : Nat)
    (targetType : TargetType) (target : Nat) (hpend : w.sess.pend = id) :
    Look Γ (lockSubmissionParties reporter targetType target) w (fun parties w' =>
      targetLock targetType target ∈ w'.sess.held ∧
        PartiesOf targetType target parties w'.db) refusal := by
  have hΓ := hA.lawful
  -- a review is looked up like a product
  have hproduct : ∀ targetType : TargetType, targetType ≠ .user →
      Look Γ (lockSubmissionParties reporter .product target) w (fun parties w' =>
        .row .product target ∈ w'.sess.held ∧
          PartiesOf targetType target parties w'.db) refusal := by
    intro targetType htype
    refine Look.bind (P := fun x w1 => .row .product target ∈ w1.sess.held ∧
        x.1.pk = target ∧ x.1 ∈ w1.db.products) hΓ
      (look_missing hΓ ?_) fun x w1 _ ⟨hlock, hpk, hrow⟩ => ?_
    · refine Look.bind hΓ (look_getForUpdate hΓ (missing_faults hF) _ _ _ _ (Or.inr ⟨_, rfl⟩))
        fun product w1 h1 ⟨hrow, hp, hlock⟩ => ?_
      rw [Bool.and_eq_true, beq_iff_eq] at hp
      rw [hp.1] at hlock
      rw [view_of_id (h1.pend.trans hpend)] at hrow
      refine Look.bind hΓ (look_getForUpdate hΓ (missing_faults hF) _ _ _ _ (Or.inr ⟨_, rfl⟩))
        fun _ w2 h2 _ => Look.ret hΓ ⟨h2.held hlock, hp.1, ?_⟩
      exact (hA.same h2.toNear hlock).1 product hrow hp.1
    · refine Look.bind hΓ (look_clockTimestamp hF) fun now w2 h2 _ =>
        Look.ret hΓ ⟨h2.held hlock, .product x.1 htype rfl rfl hpk ?_⟩
      exact ⟨x.1, (hA.same h2.toNear hlock).1 x.1 hrow hpk, rfl⟩
  cases targetType with
  | user =>
      refine Look.bind hΓ (look_selectForUpdate hΓ hF _ _ _ _)
        fun users w1 h1 hrows => ?_
      cases hr : users.find? (·.pk == reporter) with
      | none => exact Look.raise hΓ (refusal_report _)
      | some reporterUser =>
          cases ht : users.find? (·.pk == target) with
          | none => exact Look.raise hΓ (refusal_report _)
          | some targetUser =>
              have hpk := List.find?_some ht
              rw [beq_iff_eq] at hpk
              have hlock := hrows.held _ (List.mem_of_find?_eq_some ht)
              rw [hpk] at hlock
              exact Look.bind hΓ (look_clockTimestamp hF) fun now w2 h2 _ =>
                Look.ret hΓ ⟨h2.held hlock, .user targetUser rfl rfl rfl hpk⟩
  | product => exact hproduct .product (by decide)
  | review => exact hproduct .review (by decide)

/-- Nobody reports oneself, or one's own product. -/
theorem look_mayReport_other (hΓ : Lawful Γ) (hF : Faults Γ refusal) (parties : SubmissionParties) :
    Look Γ (mayReport parties) w (fun allowed _ => allowed = true →
      (∀ u, parties.targetUser = some u → u.pk ≠ parties.reporter.pk) ∧
      ∀ q, parties.targetUser = none → parties.targetProduct = some q →
        q.owner ≠ parties.reporter.pk) refusal := by
  rw [mayReport.eq_def]
  split
  · next u _ huser =>
      split
      · exact Look.ret hΓ fun h => by cases h
      · next hrefused =>
          rw [Bool.or_eq_true, not_or, beq_iff_eq] at hrefused
          refine Look.bind hΓ (look_effectiveUserStatus hΓ hF _ _) fun _ _ _ _ =>
            Look.ret hΓ fun _ => ⟨fun x hx => ?_, fun q hq => ?_⟩
          · rw [huser] at hx
            cases hx
            exact hrefused.1
          · rw [huser] at hq
            cases hq
  · next _ q hnone hproduct =>
      split
      · exact Look.ret hΓ fun h => by cases h
      · next howner =>
          rw [beq_iff_eq] at howner
          refine Look.bind hΓ (look_effectiveProductVisibility hΓ hF _ _)
            fun _ _ _ _ => Look.ret hΓ fun _ => ⟨fun x hx => ?_, fun x _ hx => ?_⟩
          · rw [hnone] at hx
            cases hx
          · rw [hproduct] at hx
            cases hx
            exact howner
  · exact Look.ret hΓ fun h => by cases h

/-- The report that `createReport` inserts. -/
def reportRow (n : Nat) (targetType : TargetType) (context : ReportContext) (reason : String)
    (parties : SubmissionParties) : AbuseReport :=
  { pk := n, reporter := parties.reporter.pk, targetType := targetType,
    targetUser := parties.targetUser.map (·.pk),
    targetProduct := parties.targetProduct.map (·.pk), context := context,
    reason := reason, createdAt := parties.databaseNow }

/-- **SPECIFICATION** of the insert of a report. -/
theorem body_createReport (hA : Abides p Γ) (hF : Faults Γ refusal) {parties : SubmissionParties}
    (hlock : targetLock targetType target ∈ w.sess.held)
    (hparties : PartiesOf targetType target parties w.db)
    (hother : (∀ u, parties.targetUser = some u → u.pk ≠ parties.reporter.pk) ∧
      ∀ q, parties.targetUser = none → parties.targetProduct = some q →
        q.owner ≠ parties.reporter.pk)
    (hpend : w.sess.pend = id) {context : ReportContext}
    (hfits : validateReportContext targetType context = .ok ()) (reason : String) :
    Body Γ (createReport targetType context reason parties) w (fun _ w' => ∃ x,
      Filing targetType target x w' ∧ w'.sess.pend = filed (some x)) refusal := by
  have hΓ := hA.lawful
  refine Body.look hΓ Look.fresh fun n w1 h1 _ => ?_
  refine Body.look hΓ (look_raiseIf hΓ fun _ => Or.inl rfl) fun _ w2 h2 _ => ?_
  have h02 : Still Γ w w2 := h1.trans hΓ h2
  have hpend2 : w2.sess.pend = id := h02.pend.trans hpend
  let x := reportRow n targetType context reason parties
  refine Body.bind hΓ (body_insertRow hΓ hF (Or.inl rfl) fun held _ hkeys s =>
    hA.leave _ _ _ (show Respects p held s (addReport x s) from
      respects_addReport (hkeys _ List.mem_cons_self) (fun m hm => ?_) fun m hm => ?_))
    fun _ w3 h3 hi => Body.ret hΓ ⟨x, ?_, ?_⟩
  · refine hkeys _ (List.mem_cons_of_mem _ (List.mem_append_left _ ?_))
    exact List.mem_map.mpr ⟨m, Option.mem_toList.mpr hm, rfl⟩
  · refine hkeys _ (List.mem_cons_of_mem _ (List.mem_append_right _ ?_))
    exact List.mem_map.mpr ⟨m, Option.mem_toList.mpr hm, rfl⟩
  · have hview : ∀ i : Index, ∀ s, i.present (w2.sess.pend s) = false → i.present s = false := by
      intro i s hs
      rw [hpend2] at hs
      exact hs
    have h03 : Near Γ w w3 := h02.toNear.trans hΓ h3.toNear
    have hsettledUser : ∀ m, x.targetUser = some m → Settled (.reporterUser x.reporter m) w3 := by
      intro m hm
      refine hi.settled hA (List.mem_cons_of_mem _ (List.mem_append_left _ ?_)) (hview _)
      exact List.mem_map.mpr ⟨m, Option.mem_toList.mpr hm, rfl⟩
    have hsettledProduct : ∀ m, x.targetProduct = some m →
        Settled (.reporterProduct x.reporter m) w3 := by
      intro m hm
      refine hi.settled hA (List.mem_cons_of_mem _ (List.mem_append_right _ ?_)) (hview _)
      exact List.mem_map.mpr ⟨m, Option.mem_toList.mpr hm, rfl⟩
    have hkey : Settled (.pk .report x.pk) w3 := hi.settled hA List.mem_cons_self (hview _)
    have hparties3 := hparties.keeps (hA.keeps h03)
    -- the report names its target in one of two columns
    cases hparties3 with
    | user u htype huser hproduct hpk =>
        have hxuser : x.targetUser = some target := by
          show parties.targetUser.map (·.pk) = _
          rw [huser, ← hpk]
          rfl
        have hxproduct : x.targetProduct = none := by
          show parties.targetProduct.map (·.pk) = _
          rw [hproduct]
          rfl
        refine ⟨h03.held hlock, hkey, rfl, ?_, Or.inr hxproduct, rfl, hsettledUser,
          hsettledProduct, ⟨fun m hm => ?_, fun m hm => ?_⟩, hfits⟩
        · rw [htype]
          exact beq_iff_eq.mpr hxuser
        · rw [hxuser] at hm
          cases hm
          rw [← hpk]
          exact (hother.1 u huser).symm
        · rw [hxproduct] at hm
          cases hm
    | product q htype huser hproduct hpk hrow =>
        have hxuser : x.targetUser = none := by
          show parties.targetUser.map (·.pk) = _
          rw [huser]
          rfl
        have hxproduct : x.targetProduct = some target := by
          show parties.targetProduct.map (·.pk) = _
          rw [hproduct, ← hpk]
          rfl
        refine ⟨h03.held hlock, hkey, rfl, ?_, Or.inl hxuser, rfl, hsettledUser,
          hsettledProduct, ⟨fun m hm => ?_, fun m hm => ?_⟩, hfits⟩
        · cases targetType with
          | user => exact absurd rfl htype
          | product => exact beq_iff_eq.mpr hxproduct
          | review => exact beq_iff_eq.mpr hxproduct
        · rw [hxuser] at hm
          cases hm
        · rw [hxproduct] at hm
          cases hm
          obtain ⟨y, hy, hsame⟩ := hrow
          rw [Product.identity, Product.identity, Prod.mk.injEq] at hsame
          refine ⟨y, hy, hsame.1.trans hpk, ?_⟩
          rw [hsame.2]
          exact hother.2 q huser hproduct
  · rw [hi.pend, hpend2]
    rfl

/-- **SPECIFICATION** of the transaction of `submit_report`. -/
theorem body_submitReport_reports (hR : ReportAbides p Γ) (hshow : ShowsSanctions Γ)
    (reporter : Nat) {targetType : TargetType} (target : Nat) {context : ReportContext}
    (hfits : validateReportContext targetType context = .ok ()) (reason : String)
    (hpend : w.sess.pend = id) (hI : ReportInv w.db) :
    Body Γ (submitReportBody reporter targetType target context reason) w
      (fun _ w' => ReportEnd targetType target w' w'.sess.pend) refusal := by
  have hA := hR.abides
  have hΓ := hA.lawful
  have hF := refusal_faults hR.operational
  refine Body.look hΓ (look_lockSubmissionParties_of hA hF reporter targetType target hpend)
    fun parties w1 h1 ⟨hlock, hparties⟩ => ?_
  refine Body.look hΓ (look_reporterCanContribute_age hΓ hF _ _) fun _ w2 h2 _ => ?_
  refine Body.look hΓ (look_raiseIf hΓ fun _ => refusal_report _) fun _ w3 h3 _ => ?_
  refine Body.look hΓ (look_mayReport_other hΓ hF parties) fun allowed w4 h4 hallowed => ?_
  refine Body.look hΓ (look_raiseIf hΓ fun _ => refusal_report _) fun _ w5 h5 hpassed => ?_
  rw [Bool.not_eq_false'] at hpassed
  have h15 : Still Γ w1 w5 := h2.trans hΓ (h3.trans hΓ (h4.trans hΓ h5))
  have hI5 : ReportInv w5.db := hR.inv (h1.trans hΓ h15).toNear hI
  refine Body.bind hΓ (body_createReport hA hF (h15.held hlock)
    (hparties.keeps (hA.keeps h15.toNear)) (hallowed hpassed) ?_ hfits reason)
    fun report w6 h6 ⟨x, hfiling, hp6⟩ => ?_
  · rw [h15.pend, h1.pend, hpend]
  refine Body.bind hΓ (body_evaluateLocked_reports (r := some x) hR hshow _ hfiling.lock
    (fun y hy => ?_) (hR.inv h6.toNear hI5) hp6) fun _ _ _ hend => Body.ret hΓ hend
  cases hy
  exact hfiling

/-- The target is locked, or the database refuses. -/
theorem look_lockTarget_refusal (hΓ : Lawful Γ) (hF : Faults Γ refusal)
    (targetType : TargetType) (target : Nat) :
    Look Γ (lockTarget targetType target) w
      (fun _ w' => targetLock targetType target ∈ w'.sess.held) refusal := by
  have hproduct : Look Γ (Prog.tryCatch (getForUpdate .product (·.products) (·.pk) fun r =>
        r.pk == target && r.archivedAt.isNone) fun
        | .doesNotExist _ => raise (.reportSubmissionError "report cannot be accepted")
        | e => raise e : M Product) w (fun _ w' => .row .product target ∈ w'.sess.held)
      refusal := by
    refine look_missing hΓ ((look_getForUpdate hΓ (missing_faults hF) _ _ _ _
      (Or.inr ⟨_, rfl⟩)).mono fun r w1 _ ⟨_, hp, hl⟩ => ?_)
    rw [Bool.and_eq_true, beq_iff_eq] at hp
    rw [hp.1] at hl
    exact hl
  cases targetType with
  | user =>
      refine Look.bind (P := fun _ w1 => .row .user target ∈ w1.sess.held) hΓ
        (look_missing hΓ ((look_getForUpdate hΓ (missing_faults hF) _ _ _ _
          (Or.inr ⟨_, rfl⟩)).mono fun u w1 _ ⟨_, hp, hl⟩ => ?_)) fun user w1 _ hlock => ?_
      · rw [eq_of_beq hp] at hl
        exact hl
      · split
        · exact Look.ret hΓ hlock
        · exact Look.bind hΓ (look_effectiveUserStatus hΓ hF _ _) fun _ w2 h2 _ =>
            Look.ret hΓ (h2.held hlock)
  | product =>
      exact Look.bind hΓ hproduct fun product w1 _ hlock =>
        Look.bind hΓ (look_effectiveProductVisibility hΓ hF _ _) fun _ w2 h2 _ =>
          Look.ret hΓ (h2.held hlock)
  | review => exact Look.bind hΓ hproduct fun _ w1 _ hlock => Look.ret hΓ hlock

/-- **SPECIFICATION** of the transaction of `evaluate_threshold`. -/
theorem body_evaluateThreshold_reports (hR : ReportAbides p Γ) (hshow : ShowsSanctions Γ)
    (targetType : TargetType) (target : Nat) (hpend : w.sess.pend = id) (hI : ReportInv w.db) :
    Body Γ (evaluateThresholdBody targetType target) w
      (fun _ w' => ReportEnd targetType target w' w'.sess.pend) refusal := by
  have hA := hR.abides
  have hΓ := hA.lawful
  have hF := refusal_faults hR.operational
  refine Body.look hΓ (look_lockTarget_refusal hΓ hF targetType target)
    fun standing w1 h1 hlock => ?_
  have hpend1 : w1.sess.pend = filed none := h1.pend.trans hpend
  cases standing with
  | false =>
      refine Body.ret hΓ (.filing none hlock (fun x hx => (by cases hx)) fun s => ?_)
      rw [hpend1]
      exact sameReports_composes.refl _
  | true =>
      refine Body.look hΓ (look_clockTimestamp hF) fun now w2 h2 _ => ?_
      exact body_evaluateLocked_reports hR hshow none (h2.held hlock)
        (fun x hx => (by cases hx)) (hR.inv (h1.trans hΓ h2).toNear hI) (h2.pend.trans hpend1)

end Market
