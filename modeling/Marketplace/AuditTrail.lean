import Marketplace.EventLog
import Marketplace.ReportSpecs
import Marketplace.ReviewVisibility

/-! # The trail of the staff's decisions

    Sanctions, releases, scopes and the visibility of reviews are decided by staff, and every
    decision is audited in the transaction that makes it.  `AdminAudit.change` reads a
    decision out of its audit, `managedIn` the decisions out of the other tables.  Restrictions
    that reports bring about are not the staff's; the audit of the policy names them. -/

namespace Market

open TxnProgram TxnInterleaving TxnLogic TxnProtection TxnBody TxnFrames EventLog

variable {p : Platform} {Γ : Ctx Store Lock Exn Obs} {w w' : World Store Lock Obs}
  {s s' s'' : Store} {targetType : TargetType} {target n : Nat} {clock : Time}

/-! ## What staff decide -/

/-- A grant, without its codename, which no audit tells. -/
structure ScopeRecord where
  pk : Nat
  staff : Nat
  targetType : String
  target : Nat
  grantedBy : Nat
  revokedBy : Option Nat

/-- A decision about a review. -/
structure VisibilityRecord where
  pk : Nat
  review : Nat
  actor : Nat
  kind : String
  reason : String

/-- What the staff have decided: sanctions with their targets, releases, scopes and the
    visibility of reviews, in the order in which it was decided. -/
structure Managed where
  sanctions : List (Nat × String × Nat)
  releases : List SanctionRelease
  scopes : List ScopeRecord
  decisions : List VisibilityRecord

/-- One decision. -/
inductive StaffChange where
  | sanctioned (n : Nat) (targetType : String) (target : Nat)
  | released (r : SanctionRelease)
  | granted (g : ScopeRecord)
  | revoked (n actor : Nat)
  | decided (v : VisibilityRecord)

def ScopeRecord.revokedFrom (n actor : Nat) (g : ScopeRecord) : ScopeRecord :=
  if g.pk = n then { g with revokedBy := some actor } else g

def StaffChange.apply : StaffChange → Managed → Managed
  | .sanctioned n targetType target, m =>
      { m with sanctions := m.sanctions ++ [(n, targetType, target)] }
  | .released r, m => { m with releases := m.releases ++ [r] }
  | .granted g, m => { m with scopes := m.scopes ++ [g] }
  | .revoked n actor, m => { m with scopes := m.scopes.map (·.revokedFrom n actor) }
  | .decided v, m => { m with decisions := m.decisions ++ [v] }

/-! ## Read out of the audits -/

/-- The number in a field of the state after. -/
def AdminAudit.number (a : AdminAudit) (field : String) : Option Nat :=
  match a.after.lookup field with
  | some (.num n) => some n.toNat
  | _ => none

/-- The text in a field of the state after. -/
def AdminAudit.text (a : AdminAudit) (field : String) : Option String :=
  match a.after.lookup field with
  | some (.str t) => some t
  | _ => none

/-- What was decided, by the audit: nothing, when it is of a refusal. -/
def AdminAudit.change (a : AdminAudit) : Option StaffChange :=
  if a.result ≠ "SUCCESS" then none
  else if a.action = "apply" then
    (a.number "sanction_id").map fun n => .sanctioned n a.targetType a.targetId
  else if a.action = "release" then
    (a.number "sanction_id").map fun n => .released ⟨n, a.actor, a.reason⟩
  else if a.action = "grant" then
    (a.number "grant_id").bind fun n => (a.number "staff_id").map fun staff =>
      .granted ⟨n, staff, a.targetType, a.targetId, a.actor, none⟩
  else if a.action = "revoke" then
    (a.number "grant_id").map fun n => .revoked n a.actor
  else
    (a.number "action_id").bind fun n => (a.text "visibility").map fun kind =>
      .decided ⟨n, a.targetId, a.actor, kind, a.reason⟩

/-! ## Read out of the tables -/

/-- The policy has audited the action: reports brought it about. -/
def byReports (s : Store) (n : Nat) : Bool := s.auditEvents.any (·.action == some n)

def ModerationAction.record (a : ModerationAction) : Nat × String × Nat :=
  (a.pk, a.target.1.text, a.target.2)

def AdminScopeGrant.record (g : AdminScopeGrant) : ScopeRecord :=
  ⟨g.pk, g.staff, g.target.1.text, g.target.2, g.grantedBy, g.revokedBy⟩

def ReviewVisibilityAction.record (a : ReviewVisibilityAction) : VisibilityRecord :=
  ⟨a.pk, a.review, a.actor, a.kind.text, a.reason⟩

def managedIn (s : Store) : Managed where
  sanctions := (s.actions.filter fun a => !byReports s a.pk).map ModerationAction.record
  releases := s.releases
  scopes := s.scopeGrants.map AdminScopeGrant.record
  decisions := s.visibilityActions.map ReviewVisibilityAction.record

/-- The audits of the staff, as a log of what they decided. -/
def trail : Projection Store AdminAudit StaffChange Managed where
  log := (·.adminAudits)
  decode := AdminAudit.change
  view := managedIn
  apply := StaffChange.apply

/-- The foreign key of the audits of the policy. -/
def EventsRefer (s : Store) : Prop :=
  ∀ e ∈ s.auditEvents, ∀ n, e.action = some n → ∃ a ∈ s.actions, a.pk = n

/-! ## What stays -/

/-- The tables of the decisions and of their audits. -/
structure TrailSame (s s' : Store) : Prop where
  actions : s'.actions = s.actions
  auditEvents : s'.auditEvents = s.auditEvents
  releases : s'.releases = s.releases
  scopeGrants : s'.scopeGrants = s.scopeGrants
  visibilityActions : s'.visibilityActions = s.visibilityActions
  adminAudits : s'.adminAudits = s.adminAudits

theorem TrailSame.refl (s : Store) : TrailSame s s := ⟨rfl, rfl, rfl, rfl, rfl, rfl⟩

/-- The trail is the same from step to step. -/
theorem TrailSame.trans (h : TrailSame s s') (h' : TrailSame s' s'') : TrailSame s s'' where
  actions := h'.actions.trans h.actions
  auditEvents := h'.auditEvents.trans h.auditEvents
  releases := h'.releases.trans h.releases
  scopeGrants := h'.scopeGrants.trans h.scopeGrants
  visibilityActions := h'.visibilityActions.trans h.visibilityActions
  adminAudits := h'.adminAudits.trans h.adminAudits

/-- To leave the trail alone is a relation of steps. -/
theorem trailSame_composes : Composes TrailSame :=
  ⟨TrailSame.refl, fun _ _ _ h h' => h.trans h'⟩

/-- What is managed is the same, -/
theorem TrailSame.managed (h : TrailSame s s') : managedIn s' = managedIn s := by
  simp only [managedIn, byReports, h.actions, h.auditEvents, h.releases, h.scopeGrants,
    h.visibilityActions]

/-- events refer to what they did, -/
theorem TrailSame.refer (h : TrailSame s s') (hs : EventsRefer s) : EventsRefer s' := by
  rw [EventsRefer, h.auditEvents, h.actions]
  exact hs

/-- and nothing is recorded. -/
theorem TrailSame.records (h : TrailSame s s') : trail.Records s s' :=
  .of_same h.adminAudits h.managed

/-- An action may be added on both sides, -/
theorem TrailSame.addAction (h : TrailSame s s') (a : ModerationAction) :
    TrailSame (addAction a s) (addAction a s') :=
  { h with actions := congrArg (· ++ [a]) h.actions }

/-- and so may an event, -/
theorem TrailSame.addAuditEvent (h : TrailSame s s') (e : AuditEvent) :
    TrailSame (addAuditEvent e s) (addAuditEvent e s') :=
  { h with auditEvents := congrArg (· ++ [e]) h.auditEvents }

/-- and an audit row. -/
theorem TrailSame.addAdminAudit (h : TrailSame s s') (a : AdminAudit) :
    TrailSame (addAdminAudit a s) (addAdminAudit a s') :=
  { h with adminAudits := congrArg (· ++ [a]) h.adminAudits }

/-! ## One decision -/

/-- The writes of the decisions.  A sanction is new: nobody had its key. -/
inductive Enacts (held : List Lock) (s0 : Store) : StaffChange → (Store → Store) → Prop where
  | sanctioned (n : Nat) (targetType : TargetType) (target : Nat) (clock : Time) :
      targetType ≠ .review → Free held s0 (.pk .action n) →
      Enacts held s0 (.sanctioned n targetType.text target)
        (addAction (sanctionRow n targetType target clock))
  | released (r : SanctionRelease) : Enacts held s0 (.released r) (addRelease r)
  | granted (n actor staff : Nat) (codename : String) (targetType : TargetType) (target : Nat) :
      Enacts held s0 (.granted ⟨n, staff, targetType.text, target, actor, none⟩)
        (addGrant (newGrant n actor staff codename targetType target))
  | revoked (n actor : Nat) (f : AdminScopeGrant → AdminScopeGrant) :
      (∀ g, (f g).record = { g.record with revokedBy := some actor }) →
      Enacts held s0 (.revoked n actor) (updateGrant n f)
  | decided (a : ReviewVisibilityAction) :
      Enacts held s0 (.decided a.record) (addVisibilityAction a)

/-- What is enacted stays so under the locks. -/
theorem Enacts.near {x : StaffChange} {g : Store → Store} (hA : Abides p Γ)
    (h : Enacts w.sess.held w.db x g) (hn : Near Γ w w') : Enacts w'.sess.held w'.db x g := by
  cases h with
  | sanctioned n targetType target clock htype hfree =>
      exact .sanctioned n targetType target clock htype (hfree.near hA hn)
  | released r => exact .released r
  | granted n actor staff codename targetType target =>
      exact .granted n actor staff codename targetType target
  | revoked n actor f hf => exact .revoked n actor f hf
  | decided a => exact .decided a

/-- No audit of the policy names an action that is not there. -/
theorem byReports_of_free {held : List Lock} (h : EventsRefer s)
    (hfree : Free held s (.pk .action n)) : byReports s n = false := by
  by_contra hnamed
  rw [Bool.not_eq_false, byReports, List.any_eq_true] at hnamed
  obtain ⟨e, he, hn⟩ := hnamed
  obtain ⟨a, ha, hpk⟩ := h e he n (beq_iff_eq.mp hn)
  have hnone : s.actions.any (·.pk == n) = false := hfree.free
  rw [List.any_eq_false] at hnone
  exact hnone a ha (beq_iff_eq.mpr hpk)

@[simp] theorem sanctionRow_pk (n : Nat) (targetType : TargetType) (target : Nat)
    (clock : Time) : (sanctionRow n targetType target clock).pk = n := by
  cases targetType <;> rfl

/-- What a sanction is recorded as. -/
theorem sanctionRow_record (h : targetType ≠ .review) :
    (sanctionRow n targetType target clock).record = (n, targetType.text, target) := by
  cases targetType with
  | user => rfl
  | product => rfl
  | review => exact absurd rfl h

/-- What a grant is recorded as. -/
theorem newGrant_record (actor staff : Nat) (codename : String) :
    (newGrant n actor staff codename targetType target).record =
      ⟨n, staff, targetType.text, target, actor, none⟩ := by
  cases targetType <;> rfl

/-- A new action takes no reference away. -/
theorem refer_addAction (h : EventsRefer s) (a : ModerationAction) :
    EventsRefer (addAction a s) := by
  intro e he n hn
  obtain ⟨x, hx, hpk⟩ := h e he n hn
  exact ⟨x, List.mem_append_left _ hx, hpk⟩

/-- **DECISION**: the tables are changed as the decision says, and the trail is not. -/
theorem Enacts.view {held : List Lock} {x : StaffChange} {g : Store → Store}
    (h : Enacts held s x g) (hrefer : EventsRefer s) :
    managedIn (g s) = x.apply (managedIn s) ∧ EventsRefer (g s) ∧
      (g s).adminAudits = s.adminAudits := by
  cases h with
  | sanctioned n targetType target clock htype hfree =>
      refine ⟨?_, refer_addAction hrefer _, rfl⟩
      have hnew : byReports s n = false := byReports_of_free hrefer hfree
      have hrow : (s.actions ++ [sanctionRow n targetType target clock]).filter
          (fun a => !byReports s a.pk) =
          (s.actions.filter fun a => !byReports s a.pk) ++
            [sanctionRow n targetType target clock] := by
        simp [List.filter_append, hnew]
      show Managed.mk (List.map _ ((s.actions ++ [_]).filter fun a : ModerationAction =>
        !byReports s a.pk)) _ _ _ = _
      rw [hrow, List.map_append, List.map_singleton, sanctionRow_record htype]
      rfl
  | released r => exact ⟨rfl, hrefer, rfl⟩
  | granted n actor staff codename targetType target =>
      refine ⟨?_, hrefer, rfl⟩
      show Managed.mk _ _ (List.map _ (s.scopeGrants ++ [_])) _ = _
      rw [List.map_append, List.map_singleton, newGrant_record]
      rfl
  | revoked n actor f hf =>
      refine ⟨?_, hrefer, rfl⟩
      have hrows : (s.scopeGrants.map fun g => if g.pk = n then f g else g).map
          AdminScopeGrant.record =
          (s.scopeGrants.map AdminScopeGrant.record).map (·.revokedFrom n actor) := by
        rw [List.map_map, List.map_map]
        refine List.map_congr_left fun g _ => ?_
        show (if g.pk = n then f g else g).record =
          if g.pk = n then { g.record with revokedBy := some actor } else g.record
        split
        · exact hf g
        · rfl
      show Managed.mk _ _ (List.map _ (List.map _ s.scopeGrants)) _ = _
      rw [hrows]
      rfl
  | decided a =>
      refine ⟨?_, hrefer, rfl⟩
      show Managed.mk _ _ _ (List.map _ (s.visibilityActions ++ [a])) = _
      rw [List.map_append, List.map_singleton]
      rfl

/-! ## One transaction -/

/-- What a transaction does to decisions and audits: nothing; an audit that tells of no
    decision; a restriction by reports; or a decision and its audit. -/
inductive TrailEnd (held : List Lock) (s0 : Store) (f : Store → Store) : Prop where
  | same : (∀ s, TrailSame s (f s)) → TrailEnd held s0 f
  | refused (a : AdminAudit) : a.change = none → (∀ s, TrailSame (addAdminAudit a s) (f s)) →
      TrailEnd held s0 f
  | restricted (n : Nat) (targetType : TargetType) (target : Nat) (clock : Time)
      (e : AuditEvent) : Free held s0 (.pk .action n) → e.action = some n →
      (∀ s, TrailSame (addAuditEvent e (addAction (sanctionRow n targetType target clock) s))
        (f s)) → TrailEnd held s0 f
  | enacted (a : AdminAudit) (x : StaffChange) (g : Store → Store) : a.change = some x →
      Enacts held s0 x g → (∀ s, TrailSame (addAdminAudit a (g s)) (f s)) →
      TrailEnd held s0 f

/-- The end of a transaction stays one. -/
theorem TrailEnd.near {f : Store → Store} (hA : Abides p Γ)
    (h : TrailEnd w.sess.held w.db f) (hn : Near Γ w w') : TrailEnd w'.sess.held w'.db f := by
  cases h with
  | same h => exact .same h
  | refused a ha h => exact .refused a ha h
  | restricted n targetType target clock e hfree he h =>
      exact .restricted n targetType target clock e (hfree.near hA hn) he h
  | enacted a x g ha hx h => exact .enacted a x g ha (hx.near hA hn) h

/-- A restriction by reports is no decision of the staff. -/
theorem restricted_view {held : List Lock} {e : AuditEvent} (hrefer : EventsRefer s)
    (hfree : Free held s (.pk .action n)) (he : e.action = some n) :
    managedIn (addAuditEvent e (addAction (sanctionRow n targetType target clock) s)) =
      managedIn s ∧
    EventsRefer (addAuditEvent e (addAction (sanctionRow n targetType target clock) s)) := by
  have hnone : s.actions.any (·.pk == n) = false := hfree.free
  rw [List.any_eq_false] at hnone
  constructor
  · have hold : ∀ a ∈ s.actions,
        (!byReports (addAuditEvent e (addAction (sanctionRow n targetType target clock) s)) a.pk) =
          !byReports s a.pk := by
      intro a ha
      have hne : ¬ n = a.pk := by
        rintro rfl
        exact hnone a ha (beq_self_eq_true _)
      simp [byReports, addAuditEvent, addAction, he, hne]
    have hnew : byReports (addAuditEvent e
        (addAction (sanctionRow n targetType target clock) s)) n = true := by
      simp [byReports, addAuditEvent, he]
    show Managed.mk (List.map _ ((s.actions ++ [_]).filter _)) _ _ _ = _
    rw [List.filter_append, List.filter_congr hold, List.filter_singleton, sanctionRow_pk, hnew]
    simp [managedIn, addAuditEvent, addAction]
  · intro x hx m hm
    rcases List.mem_append.mp hx with hx | hx
    · exact refer_addAction hrefer _ x hx m hm
    · rw [List.mem_singleton.mp hx, he] at hm
      cases hm
      exact ⟨_, List.mem_append_right _ (List.mem_singleton.mpr rfl), sanctionRow_pk _ _ _ _⟩

/-- **COMMIT**: what a transaction decides, its audit tells. -/
theorem TrailEnd.commit {held : List Lock} {f : Store → Store} (h : TrailEnd held s f)
    (hrefer : EventsRefer s) : EventsRefer (f s) ∧ trail.Records s (f s) := by
  cases h with
  | same h => exact ⟨(h s).refer hrefer, (h s).records⟩
  | refused a ha h =>
      refine ⟨(h s).refer hrefer, ?_⟩
      exact .of_none ha (h s).adminAudits (h s).managed
  | restricted n targetType target clock e hfree he h =>
      obtain ⟨hview, hrefer'⟩ := restricted_view hrefer hfree he
      refine ⟨(h s).refer hrefer', ?_⟩
      exact .of_same (h s).adminAudits ((h s).managed.trans hview)
  | enacted a x g ha hx h =>
      obtain ⟨hview, hrefer', hlog⟩ := hx.view hrefer
      have hlog' : (f s).adminAudits = s.adminAudits ++ [a] := by
        rw [(h s).adminAudits, ← hlog]
        rfl
      refine ⟨(h s).refer hrefer', ?_⟩
      exact .of_some ha hlog' ((h s).managed.trans hview)

/-! ## Writes that are not of the staff -/

/-- The kinds of writes to these tables. -/
def trailKinds : List WriteKind := [.action, .auditEvent, .adminAudit, .release, .grant]

/-- Most kinds of writes leave the trail alone. -/
theorem trailSame_licensed {k : WriteKind} (hk : k ∉ trailKinds) {held : List Lock}
    {f : Store → Store} (h : Licensed held k f) (s : Store) : TrailSame s (f s) := by
  cases h with
  | action _ _ _ => exact absurd (by decide) hk
  | auditEvent _ _ => exact absurd (by decide) hk
  | adminAudit _ => exact absurd (by decide) hk
  | release _ _ _ => exact absurd (by decide) hk
  | grant _ _ _ _ => exact absurd (by decide) hk
  | _ => exact ⟨rfl, rfl, rfl, rfl, rfl, rfl⟩

/-- A body whose writes touch none of these tables. -/
theorem body_trailSame (hA : Abides p Γ) {α : Type} {m : M α} (ks : List WriteKind)
    (hks : ∀ k ∈ ks, k ∉ trailKinds)
    (hm : ∀ Γ', Lawful Γ' → PermitsAll Γ' ks → Safe Γ' [] m) (hopen : w.sess.frames ≠ []) :
    Body Γ m w (fun _ w' => ∀ s, TrailSame (w.sess.pend s) (w'.sess.pend s)) anyError :=
  body_keeps hA.lawful (hA.permits ks) trailSame_composes
    (fun k hk _ _ hf s => trailSame_licensed (hks k hk) hf s) hm hopen no_locks

/-- `_audit`, inside a transaction. -/
theorem body_audit (hA : Abides p Γ) (a : AdminAudit) (hopen : w.sess.frames ≠ []) :
    Body Γ (audit a) w
      (fun _ w' => w'.sess.pend = fun s => addAdminAudit a (w.sess.pend s)) anyError := by
  have hΓ := hA.lawful
  refine Body.catchAtomic hΓ (G := anyError) hopen anyError_faults
    (P := fun w1 _ w2 => w2.sess.pend = fun s => addAdminAudit a (w1.sess.pend s))
    (fun w1 _ => ?_) ?_ fun e w1 _ _ => Body.raise hΓ trivial
  · refine (body_insertRow hΓ anyError_faults trivial fun held _ _ s => ?_).mono
      fun _ w2 _ hi => ?_
    · exact hA.permits [.adminAudit] .adminAudit (by decide) held _ (.adminAudit a) s
    · rw [hi.pend, World.begin_pend]
  · intro w1 _ w2 w3 he _ hp he3
    show w3.sess.pend = _
    rw [he3.sess, hp, he.sess]

/-! ## Restrictions by reports -/

/-- So does a raised epoch. -/
theorem trailSame_bumpTarget (s : Store) : TrailSame s (bumpTarget targetType target s) := by
  rw [bumpTarget]
  split <;> exact ⟨rfl, rfl, rfl, rfl, rfl, rfl⟩

/-- The writes of a restriction. -/
theorem body_applyAction_trail (hA : Abides p Γ) (actor : Option Nat)
    (reports : List AbuseReport) (hlock : targetLock targetType target ∈ w.sess.held)
    (hpend : ∀ s, TrailSame s (w.sess.pend s)) :
    Body Γ (applyAction targetType target clock actor reports) w
      (fun _ w' => TrailEnd w'.sess.held w'.db w'.sess.pend) anyError := by
  have hΓ := hA.lawful
  refine Body.bind hΓ (body_createAction_key hA anyError_faults trivial hlock
    (fun s => (hpend s).actions) clock) fun a w1 h1 ⟨n, ha, hfree, hp1⟩ => ?_
  refine Body.bind hΓ (body_updateRows hΓ anyError_faults fun _ _ _ s => hA.leave _ _ _
    (show Respects p _ s (consumeReports (reports.map (·.pk)) a.pk s) from
      respects_consumeReports)) fun _ w2 h2 hp2 => ?_
  refine Body.bind hΓ (body_revokeSessions hA targetType target) fun _ w3 h3 hp3 => ?_
  refine Body.bind hΓ (body_insertRow hΓ anyError_faults trivial fun held _ hkeys s =>
    hA.leave _ _ _ (respects_addAuditEvent fun m hm => ?_)) fun _ w4 h4 hi =>
      Body.ret hΓ ?_
  · cases hm
    exact hkeys _ List.mem_cons_self
  · have hnear : Near Γ w1 w4 := h2.toNear.trans hΓ (h3.toNear.trans hΓ h4.toNear)
    have hpk : a.pk = n := by rw [ha, sanctionRow_pk]
    refine .restricted n targetType target clock
      (restrictionEvent targetType target actor a.pk reports.length)
      (hfree.near hA hnear).toFree (congrArg some hpk) fun s => ?_
    rw [hi.pend, hp3, hp2.1, hp1, ha]
    have hconsumed : TrailSame (addAction (sanctionRow n targetType target clock) s)
        (consumeReports (reports.map (·.pk)) (sanctionRow n targetType target clock).pk
          (addAction (sanctionRow n targetType target clock) (w.sess.pend s))) :=
      ((hpend s).addAction _).trans ⟨rfl, rfl, rfl, rfl, rfl, rfl⟩
    exact (hconsumed.trans (trailSame_bumpTarget _)).addAuditEvent _

/-- Observations of sanctions are shown, whatever they are of. -/
theorem look_shown (hshow : ShowsSanctions Γ) {clock c : Time} :
    Look Γ (Prog.observe (.sanctioning targetType target clock c)) w (fun _ _ => True)
      anyError :=
  (Look.observe fun _ _ hgiven => hshow _ _ _ _ _ _ hgiven).mono fun _ _ _ _ => trivial

/-- **SPECIFICATION** of the policy, for the trail. -/
theorem body_evaluateLocked_trail (hA : Abides p Γ) (hshow : ShowsSanctions Γ)
    (actor : Option Nat) (hlock : targetLock targetType target ∈ w.sess.held)
    (hpend : ∀ s, TrailSame s (w.sess.pend s)) (hopen : w.sess.frames ≠ []) :
    Body Γ (evaluateLocked targetType target clock actor) w
      (fun _ w' => TrailEnd w'.sess.held w'.db w'.sess.pend) anyError := by
  have hΓ := hA.lawful
  refine Body.look hΓ (look_fetchNow anyError_faults _) fun ⟨active, checkedAt⟩ w1 h1 _ => ?_
  have hpend1 : ∀ s, TrailSame s (w1.sess.pend s) := by
    rw [h1.pend]
    exact hpend
  cases active with
  | some a => exact Body.ret hΓ (.same hpend1)
  | none =>
      refine Body.bind hΓ (body_trailSame hA [] (fun _ hk => by cases hk)
        (fun Γ' hΓ' _ => safe_qualifyingReports hΓ' targetType target clock)
        (by rw [h1.frames]; exact hopen)) fun ⟨reports, byContext⟩ w2 h2 hp2 => ?_
      refine Body.look (P := fun _ _ => True) hΓ ?_ fun qualifies w3 h3 _ => ?_
      · cases qualifiesForAction targetType byContext with
        | error e => exact Look.raise hΓ trivial
        | ok qualifies => exact Look.ret hΓ trivial
      have hpend3 : ∀ s, TrailSame s (w3.sess.pend s) := by
        rw [h3.pend]
        exact fun s => (hpend1 s).trans (hp2 s)
      cases qualifies with
      | false => exact Body.ret hΓ (.same hpend3)
      | true =>
          refine Body.look hΓ (look_shown hshow) fun _ w4 h4 _ => ?_
          refine Body.bind hΓ (body_applyAction_trail hA actor reports ?_ ?_)
            fun _ w5 h5 hend => Body.ret hΓ hend
          · exact h4.held (h3.held (h2.held (h1.held hlock)))
          · rw [h4.pend]
            exact hpend3

/-- **SPECIFICATION** of the transaction of `submit_report`, for the trail. -/
theorem body_submitReport_trail (hA : Abides p Γ) (hshow : ShowsSanctions Γ) (reporter : Nat)
    (targetType : TargetType) (target : Nat) (context : ReportContext) (reason : String)
    (hpend : w.sess.pend = id) (hopen : w.sess.frames ≠ []) :
    Body Γ (submitReportBody reporter targetType target context reason) w
      (fun _ w' => TrailEnd w'.sess.held w'.db w'.sess.pend) anyError := by
  have hΓ := hA.lawful
  refine Body.look hΓ (look_lockSubmissionParties hΓ reporter targetType target w)
    fun parties w1 h1 ⟨_, hlock, _⟩ => ?_
  refine Body.look hΓ (look_reporterCanContribute hΓ _ _) fun _ w2 h2 _ => ?_
  refine Body.look hΓ (look_raiseIf hΓ fun _ => trivial) fun _ w3 h3 _ => ?_
  refine Body.look hΓ (look_mayReport hΓ parties) fun allowed w4 h4 _ => ?_
  refine Body.look hΓ (look_raiseIf hΓ fun _ => trivial) fun _ w5 h5 _ => ?_
  have h15 : Still Γ w1 w5 := h2.trans hΓ (h3.trans hΓ (h4.trans hΓ h5))
  have hpend5 : w5.sess.pend = id := h15.pend.trans (h1.pend.trans hpend)
  have hopen5 : w5.sess.frames ≠ [] := by
    rw [h15.frames, h1.frames]
    exact hopen
  refine Body.bind hΓ (body_trailSame hA [.report] (by decide) (fun Γ' hΓ' hp =>
    safe_createReport hΓ' hp targetType context reason parties) hopen5)
    fun report w6 h6 hp6 => ?_
  refine Body.bind hΓ (body_evaluateLocked_trail hA hshow _ (h6.held (h15.held hlock))
    (fun s => ?_) (by rw [h6.frames]; exact hopen5)) fun action w7 h7 hend => Body.ret hΓ hend
  have hsame := hp6 s
  rw [hpend5] at hsame
  exact hsame

/-- **SPECIFICATION** of the transaction of `evaluate_threshold`, for the trail. -/
theorem body_evaluateThreshold_trail (hA : Abides p Γ) (hshow : ShowsSanctions Γ)
    (targetType : TargetType) (target : Nat) (hpend : w.sess.pend = id)
    (hopen : w.sess.frames ≠ []) :
    Body Γ (evaluateThresholdBody targetType target) w
      (fun _ w' => TrailEnd w'.sess.held w'.db w'.sess.pend) anyError := by
  have hΓ := hA.lawful
  refine Body.look hΓ (look_lockTarget hΓ targetType target w) fun standing w1 h1 hlock => ?_
  have hpend1 : w1.sess.pend = id := h1.pend.trans hpend
  cases standing with
  | false =>
      refine Body.ret hΓ (.same fun s => ?_)
      rw [hpend1]
      exact TrailSame.refl s
  | true =>
      refine Body.look hΓ (look_clockTimestamp anyError_faults) fun now w2 h2 _ => ?_
      refine body_evaluateLocked_trail hA hshow none (h2.held hlock) (fun s => ?_) ?_
      · rw [h2.pend, hpend1]
        exact TrailSame.refl s
      · rw [h2.frames, h1.frames]
        exact hopen

end Market
