import Marketplace.KeyedGroups
import Marketplace.ModerationSpecs
import Marketplace.TransferSpecs
import Marketplace.TxnInvariants

/-! # What a restriction makes of the reports

    Five reporters, in two contexts when they report a user, bring about a restriction of
    the target: it consumes the reports that were counted and is audited once.  Reports of a
    target are filed and consumed under the lock of the target, so the ones that were counted
    are still there, and not consumed, when the restriction is committed. -/

namespace Market

open TxnProgram TxnInterleaving TxnLogic TxnProtection TxnSoundness TxnBody TxnFrames
  TxnInvariants KeyedGroups

variable {p : Platform} {Γ : Ctx Store Lock Exn Obs} {w w' : World Store Lock Obs}
  {s s' s'' : Store} {targetType : TargetType} {target : Nat} {clock : Time}

/-! ## The threshold -/

/-- The dictionary of contexts is a list of keyed groups. -/
theorem addReporter_eq (context : ReportContext) (reporter : Nat)
    (g : List (ReportContext × List Nat)) :
    addReporter context reporter g = file context reporter g := by
  induction g with
  | nil => rfl
  | cons e g ih =>
      rw [addReporter, file]
      split
      · rfl
      · rw [ih]

/-- What `qualifies_for_action` asks of the reports that count. -/
structure Threshold (targetType : TargetType) (reports : List AbuseReport) : Prop where
  reporters : INDEPENDENT_REPORTER_THRESHOLD ≤ (reports.map (·.reporter)).dedup.length
  contexts : targetType = .user →
    USER_CONTEXT_THRESHOLD ≤ (reports.map (·.context)).dedup.length
  restrictable : targetType ≠ .review

/-- No reporter is seen twice, and all of them are from the groups. -/
theorem seenReporters_ok {g : List (ReportContext × List Nat)} {seen out : List Nat}
    (h : seenReporters targetType g seen = .ok out) (hseen : seen.Nodup)
    (honce : ∀ e ∈ g, e.2.Nodup) :
    out.Nodup ∧ ∀ a ∈ out, a ∈ seen ∨ ∃ e ∈ g, a ∈ e.2 := by
  induction g generalizing seen with
  | nil =>
      rw [seenReporters] at h
      cases h
      exact ⟨hseen, fun a ha => Or.inl ha⟩
  | cons e g ih =>
      obtain ⟨context, reporters⟩ := e
      rw [seenReporters] at h
      cases hc : validateReportContext targetType context with
      | error x =>
          rw [hc] at h
          cases h
      | ok u =>
          rw [hc] at h
          change (if reporters.any seen.contains then _ else _) = _ at h
          split at h
          · cases h
          · next hnew =>
              have happ : (seen ++ reporters).Nodup := by
                refine List.nodup_append.mpr ⟨hseen, honce _ List.mem_cons_self, ?_⟩
                rintro a ha b hb rfl
                refine hnew (List.any_eq_true.mpr ⟨a, hb, ?_⟩)
                rw [List.contains_iff_mem]
                exact ha
              obtain ⟨hnodup, hmem⟩ := ih h happ fun e he => honce e (List.mem_cons_of_mem _ he)
              refine ⟨hnodup, fun a ha => ?_⟩
              rcases hmem a ha with ha | ⟨e, he, ha⟩
              · rcases List.mem_append.mp ha with ha | ha
                · exact Or.inl ha
                · exact Or.inr ⟨_, List.mem_cons_self, ha⟩
              · exact Or.inr ⟨e, List.mem_cons_of_mem _ he, ha⟩

/-- **NO ERROR**: groups with contexts of the target and no reporter in common are taken. -/
theorem seenReporters_total {g : List (ReportContext × List Nat)} {seen : List Nat}
    (hfits : ∀ e ∈ g, validateReportContext targetType e.1 = .ok ())
    (happart : g.Pairwise fun e e' => ∀ a ∈ e.2, a ∉ e'.2)
    (hseen : ∀ e ∈ g, ∀ a ∈ e.2, a ∉ seen) : ∃ out, seenReporters targetType g seen = .ok out := by
  induction g generalizing seen with
  | nil => exact ⟨seen, rfl⟩
  | cons e g ih =>
      obtain ⟨hfirst, hrest⟩ := List.pairwise_cons.mp happart
      rw [seenReporters, hfits e List.mem_cons_self]
      change ∃ out, (if e.2.any seen.contains then _ else _) = _
      have hnew : ¬ e.2.any seen.contains = true := by
        rw [List.any_eq_true]
        rintro ⟨a, ha, hc⟩
        exact hseen e List.mem_cons_self a ha (List.contains_iff_mem.mp hc)
      rw [if_neg hnew]
      refine ih (fun e' he' => hfits e' (List.mem_cons_of_mem _ he')) hrest fun e' he' a ha hc => ?_
      rcases List.mem_append.mp hc with hc | hc
      · exact hseen e' (List.mem_cons_of_mem _ he') a ha hc
      · exact hfirst e' he' a hc ha

/-- Looking up a key finds the group of the key, or nothing. -/
theorem lookup_group {g : List (ReportContext × List Nat)} (k : ReportContext) :
    (g.lookup k).getD [] = [] ∨ ∃ e ∈ g, (g.lookup k).getD [] = e.2 := by
  induction g with
  | nil => exact Or.inl rfl
  | cons e g ih =>
      rw [List.lookup_cons]
      split
      · exact Or.inr ⟨e, List.mem_cons_self, rfl⟩
      · rcases ih with h | ⟨x, hx, h⟩
        · exact Or.inl h
        · exact Or.inr ⟨x, List.mem_cons_of_mem _ hx, h⟩

/-- **THRESHOLD**: reports that qualify for an action, filed by context, are from enough
    reporters and in enough contexts. -/
theorem threshold_of_qualifies {reports : List AbuseReport}
    (h : qualifiesForAction targetType
      (fileAll (reports.map fun r => (r.context, r.reporter)) []) = .ok true) :
    Threshold targetType reports := by
  have hgroups : Grouped (fileAll (reports.map fun r => (r.context, r.reporter)) []) :=
    grouped_nil.fileAll _
  have hfiled : ∀ k a, Filed (fileAll (reports.map fun r => (r.context, r.reporter)) []) k a →
      (k, a) ∈ reports.map fun r => (r.context, r.reporter) := by
    intro k a hf
    rcases (filed_fileAll _ _).mp hf with hf | hf
    · exact absurd hf (not_filed_nil k a)
    · exact hf
  have hreporters : (reports.map fun r => (r.context, r.reporter)).map Prod.snd =
      reports.map (·.reporter) := by
    rw [List.map_map]
    rfl
  have hcontexts : (reports.map fun r => (r.context, r.reporter)).map Prod.fst =
      reports.map (·.context) := by
    rw [List.map_map]
    rfl
  generalize fileAll (reports.map fun r => (r.context, r.reporter)) [] = g at *
  rw [qualifiesForAction] at h
  cases hs : seenReporters targetType g [] with
  | error e =>
      rw [hs] at h
      cases h
  | ok seen =>
      rw [hs] at h
      obtain ⟨hnodup, hmem⟩ := seenReporters_ok hs List.nodup_nil hgroups.once
      cases targetType with
      | review => cases h
      | product =>
          have hfive : INDEPENDENT_REPORTER_THRESHOLD ≤ ((g.lookup .product).getD []).length :=
            of_decide_eq_true (Except.ok.inj h)
          refine ⟨?_, fun hc => (by cases hc), fun hc => (by cases hc)⟩
          rcases lookup_group (g := g) .product with hnone | ⟨e, he, heq⟩
          · rw [hnone] at hfive
            exact absurd hfive (by decide)
          · rw [heq] at hfive
            rw [← hreporters]
            exact Nat.le_trans hfive (hgroups.length_group_le hfiled he)
      | user =>
          have hboth := Bool.and_eq_true_iff.mp (Except.ok.inj h)
          refine ⟨?_, fun _ => ?_, fun hc => (by cases hc)⟩
          · refine Nat.le_trans (of_decide_eq_true hboth.1) (length_le_dedup hnodup fun a ha => ?_)
            rcases hmem a ha with ha | ⟨e, he, ha⟩
            · cases ha
            · rw [← hreporters]
              exact List.mem_map.mpr ⟨_, hfiled e.1 a ⟨e, he, rfl, ha⟩, rfl⟩
          · rw [← hcontexts]
            exact Nat.le_trans (of_decide_eq_true hboth.2) (hgroups.length_keys_le hfiled _)

/-- **NO ERROR**: the reports of the target, one of each reporter, are judged. -/
theorem qualifies_total {reports : List AbuseReport}
    (hfits : ∀ r ∈ reports, validateReportContext targetType r.context = .ok ())
    (hone : ∀ r ∈ reports, ∀ r' ∈ reports, r.reporter = r'.reporter → r.context = r'.context) :
    ∃ b, qualifiesForAction targetType
      (fileAll (reports.map fun r => (r.context, r.reporter)) []) = .ok b := by
  have hgroups : Grouped (fileAll (reports.map fun r => (r.context, r.reporter)) []) :=
    grouped_nil.fileAll _
  have hfiled : ∀ k a, Filed (fileAll (reports.map fun r => (r.context, r.reporter)) []) k a →
      (k, a) ∈ reports.map fun r => (r.context, r.reporter) := fun k a hf =>
    ((filed_fileAll _ _).mp hf).resolve_left (not_filed_nil k a)
  have hpair : ∀ k a, (k, a) ∈ (reports.map fun r => (r.context, r.reporter)) →
      ∃ r ∈ reports, r.context = k ∧ r.reporter = a := by
    intro k a hm
    obtain ⟨r, hr, he⟩ := List.mem_map.mp hm
    obtain ⟨rfl, rfl⟩ := Prod.mk.inj he
    exact ⟨r, hr, rfl, rfl⟩
  have happart := hgroups.apart hfiled fun k k' a hk hk' => by
    obtain ⟨r, hr, rfl, hreporter⟩ := hpair k a hk
    obtain ⟨r', hr', rfl, hreporter'⟩ := hpair k' a hk'
    exact hone r hr r' hr' (hreporter.trans hreporter'.symm)
  have hcontexts : ∀ e ∈ fileAll (reports.map fun r => (r.context, r.reporter)) [],
      validateReportContext targetType e.1 = .ok () := by
    intro e he
    obtain ⟨a, ha⟩ := List.exists_mem_of_ne_nil _ (hgroups.filled e he)
    obtain ⟨r, hr, hcontext, -⟩ := hpair e.1 a (hfiled _ _ ⟨e, he, rfl, ha⟩)
    rw [← hcontext]
    exact hfits r hr
  have hfresh : ∀ e ∈ fileAll (reports.map fun r => (r.context, r.reporter)) [],
      ∀ a ∈ e.2, a ∉ ([] : List Nat) := by
    intro _ _ a _ hc
    cases hc
  obtain ⟨seen, hseen⟩ := seenReporters_total hcontexts happart hfresh
  rw [qualifiesForAction, hseen]
  cases targetType <;> exact ⟨_, rfl⟩

/-! ## What is kept of reports -/

/-- The report as it was submitted. -/
def AbuseReport.submitted (r : AbuseReport) : AbuseReport := { r with consumedBy := none }

/-- The reports of the target. -/
def reportsOf (targetType : TargetType) (target : Nat) (s : Store) : List AbuseReport :=
  s.reports.filter (·.targets targetType target)

/-- The reports that the restriction consumed. -/
def consumedBy (action : Nat) (s : Store) : List AbuseReport :=
  s.reports.filter (·.consumedBy == some action)

/-- The report is not by the reported user or by the owner of the reported product. -/
structure Impartial (s : Store) (r : AbuseReport) : Prop where
  user : ∀ n, r.targetUser = some n → r.reporter ≠ n
  product : ∀ n, r.targetProduct = some n → ∃ q ∈ s.products, q.pk = n ∧ q.owner ≠ r.reporter

/-- The report was made in the week before the restriction, by a reporter that had been a
    member for long enough. -/
structure CountsFor (s : Store) (a : ModerationAction) (r : AbuseReport) : Prop where
  recent : a.startsAt ≤ r.createdAt + days 7
  before : r.createdAt ≤ a.startsAt
  member : ∃ u ∈ s.users, u.pk = r.reporter ∧ u.dateJoined + MIN_REPORTER_AGE ≤ a.startsAt

/-- The restriction rests on the reports that it consumed, and is audited once. -/
structure Justified (s : Store) (a : ModerationAction) : Prop where
  target : ∃ targetType target, a.kind = targetType.actionKind ∧
    a.targets targetType target = true ∧ Threshold targetType (consumedBy a.pk s) ∧
    ∀ r ∈ consumedBy a.pk s, r.targetType = targetType ∧ r.targets targetType target = true
  counts : ∀ r ∈ consumedBy a.pk s, CountsFor s a r
  event : ∃ e, s.auditEvents.filter (·.action == some a.pk) = [e] ∧
    e.eventType = "MODERATION_ACTION_APPLIED" ∧
    e.details.lookup "consumed_report_count" = some (.num (consumedBy a.pk s).length)

/-- One report of a target from each reporter. -/
def FiledOnce (r r' : AbuseReport) : Prop :=
  r.reporter = r'.reporter → (∀ n, r.targetUser = some n → r'.targetUser ≠ some n) ∧
    ∀ n, r.targetProduct = some n → r'.targetProduct ≠ some n

/-- What the tables say of reports and of the restrictions that consumed them. -/
structure ReportInv (s : Store) : Prop where
  keys : (s.reports.map (·.pk)).Nodup
  single : ∀ r ∈ s.reports, r.targetUser = none ∨ r.targetProduct = none
  once : s.reports.Pairwise FiledOnce
  impartial : ∀ r ∈ s.reports, Impartial s r
  fits : ∀ r ∈ s.reports, validateReportContext r.targetType r.context = .ok ()
  consumed : ∀ r ∈ s.reports, ∀ n, r.consumedBy = some n →
    ∃ a ∈ s.actions, a.pk = n ∧ Justified s a
  audited : ∀ e ∈ s.auditEvents, ∀ n, e.action = some n →
    ∃ a ∈ s.actions, a.pk = n ∧ Justified s a

/-- When a user joined. -/
def User.joined (u : User) : Nat × Time := (u.pk, u.dateJoined)

/-- Reports stay as they were submitted, and consumed by what consumed them; what a
    restriction has consumed does not change. -/
structure ReportsOnward (s s' : Store) : Prop where
  reports : ∀ r ∈ s.reports, ∃ r' ∈ s'.reports, r'.submitted = r.submitted ∧
    ∀ n, r.consumedBy = some n → r'.consumedBy = some n
  evidence : ∀ a ∈ s.actions, consumedBy a.pk s' = consumedBy a.pk s
  actions : s.actions <+: s'.actions
  joined : s.users.map User.joined <+: s'.users.map User.joined

theorem ReportsOnward.refl (s : Store) : ReportsOnward s s where
  reports r hr := ⟨r, hr, rfl, fun _ h => h⟩
  evidence _ _ := rfl
  actions := List.prefix_rfl
  joined := List.prefix_rfl

/-- Reports go onward step by step. -/
theorem ReportsOnward.trans (h : ReportsOnward s s') (h' : ReportsOnward s' s'') :
    ReportsOnward s s'' where
  reports r hr := by
    obtain ⟨r1, hr1, hsame1, hcons1⟩ := h.reports r hr
    obtain ⟨r2, hr2, hsame2, hcons2⟩ := h'.reports r1 hr1
    exact ⟨r2, hr2, hsame2.trans hsame1, fun n hn => hcons2 n (hcons1 n hn)⟩
  evidence a ha := (h'.evidence a (h.actions.subset ha)).trans (h.evidence a ha)
  actions := h.actions.trans h'.actions
  joined := h.joined.trans h'.joined

/-- The lock is that of the target of the report. -/
def AbuseReport.under (r : AbuseReport) (l : Lock) : Bool :=
  match l with
  | .row .user n => r.targetUser == some n
  | .row .product n => r.targetProduct == some n
  | _ => false

/-- The reports of a target that is locked stay as they are. -/
def reportsSame (l : Lock) (s s' : Store) : Prop :=
  s'.reports.filter (·.under l) = s.reports.filter (·.under l)

/-- What the lock of a target protects besides its sanctions, in stores of the invariant. -/
def reportDiscipline : Discipline Store Lock where
  same l s s' := ReportInv s → ReportInv s' ∧ reportsSame l s s'
  keep s s' := ReportInv s → ReportInv s' ∧ ReportsOnward s s'

/-- The rules compose. -/
theorem reportDiscipline_lawful : reportDiscipline.Lawful where
  same_refl l s hI := ⟨hI, rfl⟩
  same_trans l s s' s'' h h' hI := by
    obtain ⟨hI', hsame⟩ := h hI
    obtain ⟨hI'', hsame'⟩ := h' hI'
    exact ⟨hI'', Eq.trans hsame' hsame⟩
  keep_refl s hI := ⟨hI, ReportsOnward.refl s⟩
  keep_trans s s' s'' h h' hI := by
    obtain ⟨hI', hon⟩ := h hI
    obtain ⟨hI'', hon'⟩ := h' hI'
    exact ⟨hI'', hon.trans hon'⟩

/-- Under the lock of a target its reports are the same. -/
theorem reportsSame_target (h : reportsSame (targetLock targetType target) s s') :
    reportsOf targetType target s' = reportsOf targetType target s := by
  cases targetType with
  | user => exact h
  | product => exact h
  | review => exact h

/-- A session among others that follow the rules about reports. -/
structure ReportAbides (p : Platform) (Γ : Ctx Store Lock Exn Obs) : Prop where
  abides : Abides p Γ
  operational : OperationalFaults Γ
  rely : ∀ held s s', Γ.rely held s s' → reportDiscipline.rely held s s'

/-- Others keep the invariant. -/
theorem ReportAbides.inv (hR : ReportAbides p Γ) (h : Near Γ w w') (hI : ReportInv w.db) :
    ReportInv w'.db :=
  ((hR.rely _ _ _ h.db).1 hI).1

/-- Others go onward. -/
theorem ReportAbides.onward (hR : ReportAbides p Γ) (h : Near Γ w w') (hI : ReportInv w.db) :
    ReportsOnward w.db w'.db :=
  ((hR.rely _ _ _ h.db).1 hI).2

/-- The invariant is stable. -/
theorem ReportAbides.steady (hR : ReportAbides p Γ) : Steady Γ ReportInv :=
  fun held s s' h hI => ((hR.rely held s s' h).1 hI).1

/-- Under the lock of a target nobody else reports it. -/
theorem ReportAbides.same (hR : ReportAbides p Γ) (h : Near Γ w w') (hI : ReportInv w.db)
    (hl : targetLock targetType target ∈ w.sess.held) :
    reportsOf targetType target w'.db = reportsOf targetType target w.db :=
  reportsSame_target (((hR.rely _ _ _ h.db).2 _ hl) hI).2

/-- A member stays one since the same day. -/
theorem member_of_joined (h : s.users.map User.joined <+: s'.users.map User.joined) {n : Nat}
    {t : Time} (hm : ∃ u ∈ s.users, u.pk = n ∧ u.dateJoined + MIN_REPORTER_AGE ≤ t) :
    ∃ u ∈ s'.users, u.pk = n ∧ u.dateJoined + MIN_REPORTER_AGE ≤ t := by
  obtain ⟨u, hu, hpk, hage⟩ := hm
  obtain ⟨u', hu', hsame⟩ := List.mem_map.mp (h.subset (List.mem_map_of_mem hu))
  rw [User.joined, User.joined, Prod.mk.injEq] at hsame
  exact ⟨u', hu', hsame.1.trans hpk, by rw [hsame.2]; exact hage⟩

/-- Products keep their owners. -/
theorem Impartial.keeps {r : AbuseReport} (h : Impartial s r) (hk : Keeps s s') :
    Impartial s' r where
  user := h.user
  product n hn := by
    obtain ⟨q, hq, hpk, howner⟩ := h.product n hn
    obtain ⟨q', hq', hsame⟩ := List.mem_map.mp (hk.products.subset (List.mem_map_of_mem hq))
    rw [Product.identity, Product.identity, Prod.mk.injEq] at hsame
    exact ⟨q', hq', hsame.1.trans hpk, by rw [hsame.2]; exact howner⟩

/-! ## Reports that are filed -/

/-- The store with the report that was filed, if one was. -/
def filed (r : Option AbuseReport) (s : Store) : Store :=
  match r with
  | none => s
  | some r => addReport r s

/-- A new report of the locked target. -/
structure Filing (targetType : TargetType) (target : Nat) (r : AbuseReport)
    (w : World Store Lock Obs) : Prop where
  lock : targetLock targetType target ∈ w.sess.held
  key : Settled (.pk .report r.pk) w
  type : r.targetType = targetType
  targets : r.targets targetType target = true
  single : r.targetUser = none ∨ r.targetProduct = none
  fresh : r.consumedBy = none
  onceUser : ∀ n, r.targetUser = some n → Settled (.reporterUser r.reporter n) w
  onceProduct : ∀ n, r.targetProduct = some n → Settled (.reporterProduct r.reporter n) w
  impartial : Impartial w.db r
  fits : validateReportContext r.targetType r.context = .ok ()

/-- A report that is filed stays so under the lock. -/
theorem Filing.near {r : AbuseReport} (hA : Abides p Γ) (h : Filing targetType target r w)
    (hn : Near Γ w w') : Filing targetType target r w' where
  lock := hn.held h.lock
  key := h.key.near hA hn
  type := h.type
  targets := h.targets
  single := h.single
  fresh := h.fresh
  onceUser n hu := (h.onceUser n hu).near hA hn
  onceProduct n hu := (h.onceProduct n hu).near hA hn
  impartial := h.impartial.keeps (hA.keeps hn)
  fits := h.fits

/-- The reports that were counted: they are there, and no restriction has consumed them. -/
structure Gathered (targetType : TargetType) (target : Nat) (clock : Time)
    (r : Option AbuseReport) (taken : List AbuseReport) (w : World Store Lock Obs) : Prop where
  lock : targetLock targetType target ∈ w.sess.held
  distinct : (taken.map (·.pk)).Nodup
  there : ∀ x ∈ taken, x ∈ (filed r w.db).reports
  awaiting : ∀ x ∈ taken, x.targetType = targetType ∧ x.targets targetType target = true ∧
    x.consumedBy = none ∧ clock ≤ x.createdAt + days 7 ∧ x.createdAt ≤ clock
  member : ∀ x ∈ taken, ∃ u ∈ w.db.users, u.pk = x.reporter ∧
    u.dateJoined + MIN_REPORTER_AGE ≤ clock
  threshold : Threshold targetType taken

/-- The report that was filed is among the reports. -/
theorem mem_filed {r : Option AbuseReport} {x : AbuseReport} :
    x ∈ (filed r s).reports ↔ x ∈ s.reports ∨ r = some x := by
  cases r with
  | none => simp [filed]
  | some y => simp [filed, addReport, eq_comm]

/-- What was gathered stays so under the lock of the target. -/
theorem Gathered.near {r : Option AbuseReport} {taken : List AbuseReport}
    (hR : ReportAbides p Γ) (hI : ReportInv w.db)
    (h : Gathered targetType target clock r taken w) (hn : Near Γ w w') :
    Gathered targetType target clock r taken w' where
  lock := hn.held h.lock
  distinct := h.distinct
  there x hx := by
    rcases mem_filed.mp (h.there x hx) with hold | hnew
    · -- the reports of the locked target are the same
      have hmem : x ∈ reportsOf targetType target w.db :=
        List.mem_filter.mpr ⟨hold, (h.awaiting x hx).2.1⟩
      rw [← hR.same hn hI h.lock] at hmem
      exact mem_filed.mpr (Or.inl (List.mem_filter.mp hmem).1)
    · exact mem_filed.mpr (Or.inr hnew)
  awaiting := h.awaiting
  member x hx := member_of_joined (hR.onward hn hI).joined (h.member x hx)
  threshold := h.threshold

/-- Reports, their restrictions and the audit stay as they are, and members are members
    since the same day. -/
structure SameReports (s s' : Store) : Prop where
  reports : s'.reports = s.reports
  actions : s'.actions = s.actions
  auditEvents : s'.auditEvents = s.auditEvents
  products : s'.products = s.products
  joined : s'.users.map User.joined = s.users.map User.joined

/-- To leave reports and actions alone is a relation of steps. -/
theorem sameReports_composes : Composes SameReports where
  refl _ := ⟨rfl, rfl, rfl, rfl, rfl⟩
  trans _ _ _ h h' := ⟨h'.reports.trans h.reports, h'.actions.trans h.actions,
    h'.auditEvents.trans h.auditEvents, h'.products.trans h.products, h'.joined.trans h.joined⟩

/-- The writes of a restriction by reports. -/
def restricted (targetType : TargetType) (target : Nat) (clock : Time) (action : Nat)
    (taken : List AbuseReport) (e : AuditEvent) (s : Store) : Store :=
  addAuditEvent e (consumeReports (taken.map (·.pk)) action
    (addAction (sanctionRow action targetType target clock) s))

section Writes

variable {r : Option AbuseReport} {action : Nat} {taken : List AbuseReport} {e : AuditEvent}

/-- To file a report writes the reports only. -/
@[simp] theorem filed_users : (filed r s).users = s.users := by cases r <;> rfl
@[simp] theorem filed_products : (filed r s).products = s.products := by cases r <;> rfl
@[simp] theorem filed_actions : (filed r s).actions = s.actions := by cases r <;> rfl
@[simp] theorem filed_auditEvents : (filed r s).auditEvents = s.auditEvents := by cases r <;> rfl

/-- To restrict a target adds an action, its event, and consumes reports. -/
@[simp] theorem restricted_users :
    (restricted targetType target clock action taken e s).users = s.users := rfl
@[simp] theorem restricted_products :
    (restricted targetType target clock action taken e s).products = s.products := rfl
@[simp] theorem restricted_actions : (restricted targetType target clock action taken e s).actions =
    s.actions ++ [sanctionRow action targetType target clock] := rfl
@[simp] theorem restricted_auditEvents :
    (restricted targetType target clock action taken e s).auditEvents = s.auditEvents ++ [e] := rfl

end Writes

/-- What a transaction that files or evaluates reports does to them. -/
inductive ReportEnd (targetType : TargetType) (target : Nat) (w : World Store Lock Obs)
    (f : Store → Store) : Prop where
  | filing (r : Option AbuseReport) : targetLock targetType target ∈ w.sess.held →
      (∀ x, r = some x → Filing targetType target x w) →
      (∀ s, SameReports (filed r s) (f s)) → ReportEnd targetType target w f
  | restriction (r : Option AbuseReport) (clock : Time) (action : Nat)
      (taken : List AbuseReport) (e : AuditEvent) :
      (∀ x, r = some x → Filing targetType target x w) →
      Gathered targetType target clock r taken w →
      Settled (.pk .action action) w → Settled (.auditAction action) w →
      (e.action = some action ∧ e.eventType = "MODERATION_ACTION_APPLIED" ∧
        e.details.lookup "consumed_report_count" = some (.num taken.length)) →
      (∀ s, SameReports (restricted targetType target clock action taken e (filed r s)) (f s)) →
      ReportEnd targetType target w f

/-- The end of a transaction stays one. -/
theorem ReportEnd.near {f : Store → Store} (hR : ReportAbides p Γ) (hI : ReportInv w.db)
    (h : ReportEnd targetType target w f) (hn : Near Γ w w') :
    ReportEnd targetType target w' f := by
  cases h with
  | filing r hl hr hf => exact .filing r (hn.held hl) (fun x hx => (hr x hx).near hR.abides hn) hf
  | restriction r clock action taken e hr hc hkey haudit he hf =>
      exact .restriction r clock action taken e (fun x hx => (hr x hx).near hR.abides hn)
        (hc.near hR hI hn) (hkey.near hR.abides hn) (haudit.near hR.abides hn) he hf

/-! ## Reports stay, and restrictions stay justified -/

/-- A restriction is judged by its own reports, its own audit, and when users joined. -/
theorem Justified.congr {a : ModerationAction} (h : Justified s a)
    (hreports : consumedBy a.pk s' = consumedBy a.pk s)
    (hevents : s'.auditEvents.filter (·.action == some a.pk) =
      s.auditEvents.filter (·.action == some a.pk))
    (hjoined : s.users.map User.joined <+: s'.users.map User.joined) : Justified s' a := by
  obtain ⟨t, n, hkind, htargets, hthreshold, hall⟩ := h.target
  refine ⟨⟨t, n, hkind, htargets, ?_, ?_⟩, fun r hr => ?_, ?_⟩
  · rw [hreports]
    exact hthreshold
  · rw [hreports]
    exact hall
  · rw [hreports] at hr
    have hc := h.counts r hr
    exact ⟨hc.recent, hc.before, member_of_joined hjoined hc.member⟩
  · obtain ⟨e, he, htype, hcount⟩ := h.event
    exact ⟨e, hevents.trans he, htype, by rw [hreports]; exact hcount⟩

/-- Whether a report is impartial is read off its submission. -/
theorem Impartial.congr {r r' : AbuseReport} (h : Impartial s r)
    (hsame : r'.submitted = r.submitted) (hproducts : s'.products = s.products) :
    Impartial s' r' := by
  have hreporter : r'.submitted.reporter = r.submitted.reporter := by rw [hsame]
  have huser : r'.submitted.targetUser = r.submitted.targetUser := by rw [hsame]
  have hproduct : r'.submitted.targetProduct = r.submitted.targetProduct := by rw [hsame]
  change r'.reporter = r.reporter at hreporter
  change r'.targetUser = r.targetUser at huser
  change r'.targetProduct = r.targetProduct at hproduct
  refine ⟨fun n hn => ?_, fun n hn => ?_⟩
  · rw [hreporter]
    exact h.user n (huser ▸ hn)
  · rw [hreporter, hproducts]
    exact h.product n (hproduct ▸ hn)

/-- Stores with the same reports, restrictions and audit. -/
theorem ReportInv.same (hI : ReportInv s) (h : SameReports s s') : ReportInv s' := by
  have hjust : ∀ {a : ModerationAction}, Justified s a → Justified s' a := fun ha =>
    ha.congr (by rw [consumedBy, consumedBy, h.reports]) (by rw [h.auditEvents])
      (by rw [h.joined])
  refine ⟨?_, ?_, ?_, fun r hr => ?_, ?_, fun r hr n hn => ?_, fun e he n hn => ?_⟩
  · rw [h.reports]
    exact hI.keys
  · rw [h.reports]
    exact hI.single
  · rw [h.reports]
    exact hI.once
  · rw [h.reports] at hr
    exact (hI.impartial r hr).congr rfl h.products
  · rw [h.reports]
    exact hI.fits
  · rw [h.reports] at hr
    obtain ⟨a, ha, hpk, hj⟩ := hI.consumed r hr n hn
    exact ⟨a, by rw [h.actions]; exact ha, hpk, hjust hj⟩
  · rw [h.auditEvents] at he
    obtain ⟨a, ha, hpk, hj⟩ := hI.audited e he n hn
    exact ⟨a, by rw [h.actions]; exact ha, hpk, hjust hj⟩

/-- Where nothing is filed nothing is lost. -/
theorem ReportsOnward.of_same (h : SameReports s s') : ReportsOnward s s' where
  reports r hr := ⟨r, by rw [h.reports]; exact hr, rfl, fun _ hn => hn⟩
  evidence a _ := by rw [consumedBy, consumedBy, h.reports]
  actions := by rw [h.actions]
  joined := by rw [h.joined]

/-- A new report is consumed by nothing. -/
theorem Filing.consumedBy_same {r : AbuseReport} (h : Filing targetType target r w) (n : Nat)
    (s : Store) : consumedBy n (addReport r s) = consumedBy n s := by
  show (s.reports ++ [r]).filter _ = _
  rw [List.filter_append, List.filter_singleton, h.fresh]
  simp [consumedBy]

/-- **FILING**: a new report of the locked target. -/
theorem Filing.inv {r : AbuseReport} (h : Filing targetType target r w) (hI : ReportInv w.db) :
    ReportInv (addReport r w.db) := by
  have hjust : ∀ {a : ModerationAction}, Justified w.db a → Justified (addReport r w.db) a :=
    fun ha => ha.congr (h.consumedBy_same _ _) rfl List.prefix_rfl
  have hkey : ∀ x ∈ w.db.reports, x.pk ≠ r.pk := by
    intro x hx hpk
    have hfree : w.db.reports.any (·.pk == r.pk) = false := h.key.free
    rw [List.any_eq_false] at hfree
    exact hfree x hx (beq_iff_eq.mpr hpk)
  refine ⟨?_, fun x hx => ?_, ?_, fun x hx => ?_, fun x hx => ?_, fun x hx n hn => ?_,
    fun e he n hn => ?_⟩
  · show ((w.db.reports ++ [r]).map (·.pk)).Nodup
    rw [List.map_append]
    refine List.nodup_append.mpr ⟨hI.keys, List.nodup_singleton _, ?_⟩
    intro k hk k' hk' he
    obtain ⟨x, hx, rfl⟩ := List.mem_map.mp hk
    rw [List.map_singleton, List.mem_singleton] at hk'
    exact hkey x hx (he.trans hk')
  · rcases List.mem_append.mp hx with hx | hx
    · exact hI.single x hx
    · rw [List.mem_singleton.mp hx]
      exact h.single
  · refine List.pairwise_append.mpr ⟨hI.once, List.pairwise_singleton _ _, ?_⟩
    intro x hx y hy hreporter
    rw [List.mem_singleton.mp hy] at hreporter ⊢
    refine ⟨fun n hn hr => ?_, fun n hn hr => ?_⟩
    · have hfree : w.db.reports.any (fun y => y.reporter == r.reporter &&
          y.targetUser == some n) = false := (h.onceUser n hr).free
      rw [List.any_eq_false] at hfree
      exact hfree x hx (by rw [hreporter, hn]; simp)
    · have hfree : w.db.reports.any (fun y => y.reporter == r.reporter &&
          y.targetProduct == some n) = false := (h.onceProduct n hr).free
      rw [List.any_eq_false] at hfree
      exact hfree x hx (by rw [hreporter, hn]; simp)
  · rcases List.mem_append.mp hx with hx | hx
    · exact (hI.impartial x hx).congr rfl rfl
    · rw [List.mem_singleton.mp hx]
      exact h.impartial.congr rfl rfl
  · rcases List.mem_append.mp hx with hx | hx
    · exact hI.fits x hx
    · rw [List.mem_singleton.mp hx]
      exact h.fits
  · rcases List.mem_append.mp hx with hx | hx
    · obtain ⟨a, ha, hpk, hj⟩ := hI.consumed x hx n hn
      exact ⟨a, ha, hpk, hjust hj⟩
    · rw [List.mem_singleton.mp hx, h.fresh] at hn
      cases hn
  · obtain ⟨a, ha, hpk, hj⟩ := hI.audited e he n hn
    exact ⟨a, ha, hpk, hjust hj⟩

/-- A report that is filed keeps the invariant, -/
theorem filed_inv {r : Option AbuseReport} (h : ∀ x, r = some x → Filing targetType target x w)
    (hI : ReportInv w.db) : ReportInv (filed r w.db) := by
  cases r with
  | none => exact hI
  | some x => exact (h x rfl).inv hI

/-- and goes onward. -/
theorem filed_onward {r : Option AbuseReport}
    (h : ∀ x, r = some x → Filing targetType target x w) (s : Store) :
    ReportsOnward s (filed r s) where
  reports x hx := ⟨x, mem_filed.mpr (Or.inl hx), rfl, fun _ hn => hn⟩
  evidence a _ := by
    cases r with
    | none => rfl
    | some x => exact (h x rfl).consumedBy_same _ _
  actions := by cases r <;> exact List.prefix_rfl
  joined := by cases r <;> exact List.prefix_rfl

/-- What consuming does to one report. -/
def consume (pks : List Nat) (action : Nat) (r : AbuseReport) : AbuseReport :=
  if pks.contains r.pk then { r with consumedBy := some action } else r

/-- A report that is consumed stays as it was submitted. -/
theorem consume_submitted (pks : List Nat) (action : Nat) (r : AbuseReport) :
    (consume pks action r).submitted = r.submitted := by
  rw [consume]
  split <;> rfl

/-- Rows that are rewritten to no effect on the ones that are looked for. -/
theorem filter_map_fixed {ρ : Type} {f : ρ → ρ} {q : ρ → Bool} {rows : List ρ}
    (hq : ∀ x ∈ rows, q (f x) = q x) (hf : ∀ x ∈ rows, q x = true → f x = x) :
    (rows.map f).filter q = rows.filter q := by
  induction rows with
  | nil => rfl
  | cons x rows ih =>
      have hrest := ih (fun y hy => hq y (List.mem_cons_of_mem _ hy))
        fun y hy => hf y (List.mem_cons_of_mem _ hy)
      rw [List.map_cons, List.filter_cons, List.filter_cons, hq x List.mem_cons_self, hrest]
      by_cases hx : q x = true
      · rw [if_pos hx, if_pos hx, hf x List.mem_cons_self hx]
      · rw [if_neg hx, if_neg hx]

section Restriction

variable {r : Option AbuseReport} {taken : List AbuseReport} {e : AuditEvent} {action : Nat}

/-- The rows that are consumed are the reports that were counted. -/
theorem Gathered.perm (h : Gathered targetType target clock r taken w)
    (hI : ReportInv (filed r w.db)) :
    ((filed r w.db).reports.filter fun x => (taken.map (·.pk)).contains x.pk).Perm taken := by
  refine (List.perm_ext_iff_of_nodup ((List.Nodup.of_map _ hI.keys).filter _)
    (List.Nodup.of_map _ h.distinct)).mpr fun x => ?_
  rw [List.mem_filter, List.contains_iff_mem, List.mem_map]
  constructor
  · rintro ⟨hx, y, hy, hpk⟩
    rw [← List.inj_on_of_nodup_map hI.keys (h.there y hy) hx hpk]
    exact hy
  · intro hx
    exact ⟨h.there x hx, x, hx, rfl⟩

/-- A row that is not counted is not rewritten, and neither is a consumed one. -/
theorem Gathered.consume_of_some (h : Gathered targetType target clock r taken w)
    (hI : ReportInv (filed r w.db)) {x : AbuseReport} (hx : x ∈ (filed r w.db).reports)
    (hsome : x.consumedBy ≠ none) : consume (taken.map (·.pk)) action x = x := by
  rw [consume, if_neg]
  intro hc
  rw [List.contains_iff_mem] at hc
  obtain ⟨y, hy, hpk⟩ := List.mem_map.mp hc
  rw [← List.inj_on_of_nodup_map hI.keys (h.there y hy) hx hpk] at hsome
  exact hsome (h.awaiting y hy).2.2.1

/-- Other restrictions have consumed what they had. -/
theorem Gathered.consumedBy_other (h : Gathered targetType target clock r taken w)
    (hI : ReportInv (filed r w.db)) {n : Nat} (hn : n ≠ action) :
    consumedBy n (restricted targetType target clock action taken e (filed r w.db)) =
      consumedBy n (filed r w.db) := by
  show ((filed r w.db).reports.map (consume (taken.map (·.pk)) action)).filter _ = _
  refine filter_map_fixed (fun x hx => ?_)
    fun x hx hconsumed => ?_
  · by_cases hnone : x.consumedBy = none
    · rw [consume]
      split
      · rw [hnone]
        simp [hn.symm]
      · rfl
    · rw [h.consume_of_some hI hx hnone]
  · refine h.consume_of_some hI hx ?_
    rw [eq_of_beq hconsumed]
    exact Option.some_ne_none n

/-- No report was consumed by the restriction before it was there. -/
theorem consumedBy_free (hI : ReportInv s) (hfree : (Index.pk .action action).present s = false) :
    consumedBy action s = [] := by
  rw [consumedBy, List.filter_eq_nil_iff]
  intro x hx hconsumed
  obtain ⟨a, ha, hpk, -⟩ := hI.consumed x hx action (eq_of_beq hconsumed)
  have hnone : s.actions.any (·.pk == action) = false := hfree
  rw [List.any_eq_false] at hnone
  exact hnone a ha (beq_iff_eq.mpr hpk)

/-- The restriction has consumed the reports that were counted. -/
theorem Gathered.consumedBy_self (h : Gathered targetType target clock r taken w)
    (hI : ReportInv (filed r w.db))
    (hfree : (Index.pk .action action).present (filed r w.db) = false) :
    (consumedBy action (restricted targetType target clock action taken e (filed r w.db))).Perm
      (taken.map fun x => { x with consumedBy := some action }) := by
  have hrows : consumedBy action (restricted targetType target clock action taken e
      (filed r w.db)) = ((filed r w.db).reports.filter fun x =>
        (taken.map (·.pk)).contains x.pk).map fun x => { x with consumedBy := some action } := by
    show ((filed r w.db).reports.map (consume (taken.map (·.pk)) action)).filter _ = _
    have hnone := consumedBy_free hI hfree
    rw [consumedBy, List.filter_eq_nil_iff] at hnone
    generalize (filed r w.db).reports = rows at hnone
    induction rows with
    | nil => rfl
    | cons x rows ih =>
        have hx := hnone x List.mem_cons_self
        have hrest := ih fun y hy => hnone y (List.mem_cons_of_mem _ hy)
        rw [List.map_cons, List.filter_cons, List.filter_cons, hrest, consume]
        by_cases hc : (taken.map (·.pk)).contains x.pk = true
        · rw [if_pos hc, if_pos hc, if_pos (beq_self_eq_true (some action)), List.map_cons]
        · rw [if_neg hc, if_neg hc, if_neg hx]
  rw [hrows]
  exact (h.perm hI).map _

/-- **JUSTIFICATION**: a restriction rests on the reports that were counted for it. -/
theorem Gathered.justified (h : Gathered targetType target clock r taken w)
    (hI : ReportInv (filed r w.db))
    (hfree : (Index.pk .action action).present (filed r w.db) = false)
    (haudit : (Index.auditAction action).present (filed r w.db) = false)
    (he : e.action = some action ∧ e.eventType = "MODERATION_ACTION_APPLIED" ∧
      e.details.lookup "consumed_report_count" = some (.num taken.length)) :
    Justified (restricted targetType target clock action taken e (filed r w.db))
      (sanctionRow action targetType target clock) := by
  have hpk : (sanctionRow action targetType target clock).pk = action := by
    cases targetType <;> rfl
  have hstarts : (sanctionRow action targetType target clock).startsAt = clock := by
    cases targetType <;> rfl
  -- the reports that the new action has consumed are those that were gathered
  have hperm := h.consumedBy_self (e := e) hI hfree
  have hmem : ∀ x ∈ consumedBy action (restricted targetType target clock action taken e
      (filed r w.db)), ∃ y ∈ taken, x = { y with consumedBy := some action } := by
    intro x hx
    obtain ⟨y, hy, rfl⟩ := List.mem_map.mp (hperm.subset hx)
    exact ⟨y, hy, rfl⟩
  refine ⟨⟨targetType, target, ?_, ?_, ?_, ?_⟩, ?_, ?_⟩
  · cases targetType <;> rfl
  · cases targetType <;> exact beq_self_eq_true _
  · rw [hpk]
    have hreporters := (hperm.map (·.reporter)).dedup.length_eq
    have hcontexts := (hperm.map (·.context)).dedup.length_eq
    rw [List.map_map] at hreporters hcontexts
    refine ⟨?_, fun htype => ?_, h.threshold.restrictable⟩
    · rw [hreporters]
      exact h.threshold.reporters
    · rw [hcontexts]
      exact h.threshold.contexts htype
  · rw [hpk]
    intro x hx
    obtain ⟨y, hy, rfl⟩ := hmem x hx
    exact ⟨(h.awaiting y hy).1, by cases targetType <;> exact (h.awaiting y hy).2.1⟩
  · rw [hpk]
    intro x hx
    obtain ⟨y, hy, rfl⟩ := hmem x hx
    obtain ⟨-, -, -, hrecent, hbefore⟩ := h.awaiting y hy
    obtain ⟨u, hu, huser, hage⟩ := h.member y hy
    refine ⟨by rw [hstarts]; exact hrecent, by rw [hstarts]; exact hbefore, u, ?_, huser, ?_⟩
    · rw [restricted_users, filed_users]
      exact hu
    · rw [hstarts]
      exact hage
  · rw [hpk]
    refine ⟨e, ?_, he.2.1, ?_⟩
    · rw [restricted_auditEvents]
      have hnone : (filed r w.db).auditEvents.filter (·.action == some action) = [] := by
        have hfalse : (filed r w.db).auditEvents.any (·.action == some action) = false := haudit
        rw [List.any_eq_false] at hfalse
        exact List.filter_eq_nil_iff.mpr hfalse
      rw [List.filter_append, hnone, List.filter_singleton, he.1]
      simp
    · rw [hperm.length_eq, List.length_map]
      exact he.2.2

/-- **RESTRICTION**: what was justified stays so, and the new one is. -/
theorem Gathered.inv (h : Gathered targetType target clock r taken w)
    (hI : ReportInv (filed r w.db))
    (hfree : (Index.pk .action action).present (filed r w.db) = false)
    (haudit : (Index.auditAction action).present (filed r w.db) = false)
    (he : e.action = some action ∧ e.eventType = "MODERATION_ACTION_APPLIED" ∧
      e.details.lookup "consumed_report_count" = some (.num taken.length)) :
    ReportInv (restricted targetType target clock action taken e (filed r w.db)) ∧
      ReportsOnward (filed r w.db)
        (restricted targetType target clock action taken e (filed r w.db)) := by
  have hpk : (sanctionRow action targetType target clock).pk = action := by
    cases targetType <;> rfl
  have hnew := h.justified hI hfree haudit he
  -- an older action keeps its reports, its audit and so its justification
  have hother : ∀ a ∈ (filed r w.db).actions, a.pk ≠ action := by
    intro a ha hc
    have hnone : (filed r w.db).actions.any (·.pk == action) = false := hfree
    rw [List.any_eq_false] at hnone
    exact hnone a ha (beq_iff_eq.mpr hc)
  have hjust : ∀ {a : ModerationAction}, a ∈ (filed r w.db).actions → Justified (filed r w.db) a →
      Justified (restricted targetType target clock action taken e (filed r w.db)) a := by
    intro a ha hj
    refine hj.congr (h.consumedBy_other hI (hother a ha)) ?_ (by rw [restricted_users])
    rw [restricted_auditEvents, List.filter_append, List.filter_singleton, he.1]
    have hne : (some action == some a.pk) = false :=
      beq_eq_false_iff_ne.mpr fun hc => hother a ha (Option.some.inj hc).symm
    rw [hne]
    simp
  have hnewRow : sanctionRow action targetType target clock ∈
      (restricted targetType target clock action taken e (filed r w.db)).actions := by
    rw [restricted_actions]
    exact List.mem_append_right _ List.mem_cons_self
  have holdRow : ∀ a ∈ (filed r w.db).actions,
      a ∈ (restricted targetType target clock action taken e (filed r w.db)).actions := by
    intro a ha
    rw [restricted_actions]
    exact List.mem_append_left _ ha
  -- a report changes in nothing but the action that has consumed it
  have hrow : ∀ x ∈ (restricted targetType target clock action taken e (filed r w.db)).reports,
      ∃ y ∈ (filed r w.db).reports, x = consume (taken.map (·.pk)) action y := by
    intro x hx
    obtain ⟨y, hy, rfl⟩ := List.mem_map.mp hx
    exact ⟨y, hy, rfl⟩
  have hfields : ∀ y : AbuseReport, (consume (taken.map (·.pk)) action y).pk = y.pk ∧
      (consume (taken.map (·.pk)) action y).reporter = y.reporter ∧
      (consume (taken.map (·.pk)) action y).targetUser = y.targetUser ∧
      (consume (taken.map (·.pk)) action y).targetProduct = y.targetProduct := by
    intro y
    rw [consume]
    split <;> exact ⟨rfl, rfl, rfl, rfl⟩
  refine ⟨⟨?_, fun x hx => ?_, ?_, fun x hx => ?_, fun x hx => ?_, fun x hx n hn => ?_,
    fun x hx n hn => ?_⟩, ?_⟩
  · show (((filed r w.db).reports.map (consume (taken.map (·.pk)) action)).map (·.pk)).Nodup
    rw [map_identity fun y => (hfields y).1]
    exact hI.keys
  · obtain ⟨y, hy, rfl⟩ := hrow x hx
    rw [(hfields y).2.2.1, (hfields y).2.2.2]
    exact hI.single y hy
  · show ((filed r w.db).reports.map (consume (taken.map (·.pk)) action)).Pairwise FiledOnce
    refine List.pairwise_map.mpr (hI.once.imp fun {a b} hab => ?_)
    rw [FiledOnce, (hfields a).2.1, (hfields a).2.2.1, (hfields a).2.2.2, (hfields b).2.1,
      (hfields b).2.2.1, (hfields b).2.2.2]
    exact hab
  · obtain ⟨y, hy, rfl⟩ := hrow x hx
    exact (hI.impartial y hy).congr (consume_submitted _ _ y) restricted_products
  · obtain ⟨y, hy, rfl⟩ := hrow x hx
    have hsame := consume_submitted (taken.map (·.pk)) action y
    have htype : (consume (taken.map (·.pk)) action y).submitted.targetType = y.targetType := by
      rw [hsame]
      rfl
    have hcontext : (consume (taken.map (·.pk)) action y).submitted.context = y.context := by
      rw [hsame]
      rfl
    have hfits := hI.fits y hy
    rw [← htype, ← hcontext] at hfits
    exact hfits
  · obtain ⟨y, hy, rfl⟩ := hrow x hx
    -- consumed by the new action, or by an older one
    by_cases hc : (taken.map (·.pk)).contains y.pk = true
    · rw [consume, if_pos hc] at hn
      cases hn
      exact ⟨_, hnewRow, hpk, hnew⟩
    · rw [consume, if_neg hc] at hn
      obtain ⟨a, ha, hapk, hj⟩ := hI.consumed y hy n hn
      exact ⟨a, holdRow a ha, hapk, hjust ha hj⟩
  · rw [restricted_auditEvents] at hx
    rcases List.mem_append.mp hx with hx | hx
    · obtain ⟨a, ha, hapk, hj⟩ := hI.audited x hx n hn
      exact ⟨a, holdRow a ha, hapk, hjust ha hj⟩
    · rw [List.mem_singleton.mp hx, he.1] at hn
      cases hn
      exact ⟨_, hnewRow, hpk, hnew⟩
  · refine ⟨fun x hx => ⟨_, List.mem_map_of_mem hx, consume_submitted _ _ x, fun n hn => ?_⟩,
      fun a ha => h.consumedBy_other hI (hother a ha), ?_, by rw [restricted_users]⟩
    · show (consume (taken.map (·.pk)) action x).consumedBy = some n
      rw [h.consume_of_some hI hx (by rw [hn]; exact Option.some_ne_none n)]
      exact hn
    · rw [restricted_actions]
      exact List.prefix_append _ _

end Restriction

/-! ## What a commit leaves alone -/

/-- A report of the target is of no other. -/
theorem not_under {l : Lock} {r : AbuseReport} (htargets : r.targets targetType target = true)
    (hsingle : r.targetUser = none ∨ r.targetProduct = none)
    (hl : targetLock targetType target ≠ l) : r.under l = false := by
  have huser : targetType = .user → r.targetUser = some target ∧ r.targetProduct = none := by
    rintro rfl
    have ht : r.targetUser = some target := eq_of_beq htargets
    refine ⟨ht, hsingle.resolve_left ?_⟩
    rw [ht]
    exact Option.some_ne_none target
  have hproduct : targetType ≠ .user → r.targetProduct = some target ∧ r.targetUser = none := by
    intro hne
    have ht : r.targetProduct = some target := by
      cases targetType with
      | user => exact absurd rfl hne
      | product => exact eq_of_beq htargets
      | review => exact eq_of_beq htargets
    refine ⟨ht, hsingle.resolve_right ?_⟩
    rw [ht]
    exact Option.some_ne_none target
  rw [AbuseReport.under.eq_def]
  split
  · next n =>
      by_cases htype : targetType = .user
      · subst htype
        rw [(huser rfl).1, beq_eq_false_iff_ne]
        exact fun hc => hl (congrArg (Lock.row .user) (Option.some.inj hc))
      · rw [(hproduct htype).2]
        rfl
  · next n =>
      by_cases htype : targetType = .user
      · rw [(huser htype).2]
        rfl
      · rw [(hproduct htype).1, beq_eq_false_iff_ne]
        intro hc
        refine hl ?_
        rw [← Option.some.inj hc]
        cases targetType with
        | user => exact absurd rfl htype
        | product => rfl
        | review => rfl
  · rfl

/-- A report of one target is none of another. -/
theorem filed_same {r : Option AbuseReport} (h : ∀ x, r = some x → Filing targetType target x w)
    {l : Lock} (hl : targetLock targetType target ≠ l) (s : Store) :
    reportsSame l s (filed r s) := by
  cases r with
  | none => rfl
  | some x =>
      show (s.reports ++ [x]).filter _ = _
      rw [List.filter_append, List.filter_singleton,
        not_under (h x rfl).targets (h x rfl).single hl]
      simp

/-- The target is locked at the end. -/
theorem ReportEnd.lock {f : Store → Store} (h : ReportEnd targetType target w f) :
    targetLock targetType target ∈ w.sess.held := by
  cases h with
  | filing _ hl _ _ => exact hl
  | restriction _ _ _ _ _ _ hc _ _ _ _ => exact hc.lock

/-- **COMMIT**: the reports stay as they were filed, every restriction is justified, and the
    reports of other targets are left alone. -/
theorem ReportEnd.commit {f : Store → Store} (h : ReportEnd targetType target w f)
    (hI : ReportInv w.db) : ReportInv (f w.db) ∧ ReportsOnward w.db (f w.db) ∧
      ∀ l, targetLock targetType target ≠ l → reportsSame l w.db (f w.db) := by
  cases h with
  | filing r _ hr hf =>
      refine ⟨(filed_inv hr hI).same (hf _),
        (filed_onward hr w.db).trans (ReportsOnward.of_same (hf _)), fun l hl => ?_⟩
      rw [reportsSame, (hf w.db).reports]
      exact filed_same hr hl w.db
  | restriction r clock action taken e hr hc hkey haudit he hf =>
      have hI1 := filed_inv hr hI
      have hfree : (Index.pk .action action).present (filed r w.db) = false := by
        cases r <;> exact hkey.free
      have hnone : (Index.auditAction action).present (filed r w.db) = false := by
        cases r <;> exact haudit.free
      obtain ⟨hI2, hon⟩ := hc.inv hI1 hfree hnone he
      refine ⟨hI2.same (hf _), ((filed_onward hr w.db).trans hon).trans
        (ReportsOnward.of_same (hf _)), fun l hl => ?_⟩
      rw [reportsSame, (hf w.db).reports]
      refine Eq.trans ?_ (filed_same hr hl w.db)
      show ((filed r w.db).reports.map (consume (taken.map (·.pk)) action)).filter _ = _
      have hunder : ∀ x, (consume (taken.map (·.pk)) action x).under l = x.under l := by
        intro x
        rw [consume]
        split
        · rw [AbuseReport.under.eq_def, AbuseReport.under.eq_def]
        · rfl
      refine filter_map_fixed (fun x _ => hunder x) fun x hx hx' => ?_
      rw [consume, if_neg]
      intro hcontains
      obtain ⟨y, hy, hpk⟩ := List.mem_map.mp (List.contains_iff_mem.mp hcontains)
      have hyx : y = x := List.inj_on_of_nodup_map hI1.keys (hc.there y hy) hx hpk
      rw [← hyx, not_under (hc.awaiting y hy).2.1 (hI1.single y (hc.there y hy)) hl] at hx'
      cases hx'

end Market
