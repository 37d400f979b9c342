import Marketplace.ModerationSpecs
import Marketplace.TxnInvariants
import Marketplace.TxnSchedule

/-! # Live sanctions in every run

    Two code paths insert sanctions.  Both lock the target, look for a live sanction and
    insert a window that starts at a reading of the clock: reports read it under the
    lock and look at a later time, and staff read it before they wait for the lock and
    look at the time of the reading.  As long as no sanction of the target in force
    starts after the reading or ends between the reading and the look, the windows in
    force stay apart.  A request of the staff that had to wait breaks this. -/

namespace Market

open TxnProgram TxnInterleaving TxnLogic TxnProtection TxnSoundness TxnBody TxnFrames
  TxnInvariants TxnSchedule

variable {p : Platform} {Γ : Ctx Store Lock Exn Obs} {w : World Store Lock Obs}
  {s s' : Store} {a b : ModerationAction} {targetType : TargetType} {target : Nat}
  {t : Time}

/-! ## Windows -/

/-- The sanctions of the target that are in force at database time `t`. -/
def liveActions (targetType : TargetType) (target : Nat) (t : Time) (s : Store) :
    List ModerationAction :=
  (activeActions t s).filter (·.targets targetType target)

/-- One window ends before the other one starts. -/
def Apart (a b : ModerationAction) : Prop :=
  a.expiresAt ≤ b.startsAt ∨ b.expiresAt ≤ a.startsAt

instance (a b : ModerationAction) : Decidable (Apart a b) :=
  inferInstanceAs (Decidable (_ ∨ _))

theorem not_apart (ha : a.inWindow t = true) (hb : b.inWindow t = true) : ¬ Apart a b := by
  rw [ModerationAction.inWindow, Bool.and_eq_true, decide_eq_true_iff, decide_eq_true_iff]
    at ha hb
  rintro (h | h)
  · exact Nat.lt_irrefl t (Nat.lt_of_lt_of_le ha.2 (Nat.le_trans h hb.1))
  · exact Nat.lt_irrefl t (Nat.lt_of_lt_of_le hb.2 (Nat.le_trans h ha.1))

/-- Two sanctions of one user or of one product. -/
def SameTarget (a b : ModerationAction) : Prop :=
  (a.targetUser.isSome = true ∧ a.targetUser = b.targetUser) ∨
    (a.targetProduct.isSome = true ∧ a.targetProduct = b.targetProduct)

instance (a b : ModerationAction) : Decidable (SameTarget a b) :=
  inferInstanceAs (Decidable (_ ∨ _))

theorem targets_iff : a.targets targetType target = true ↔
    match targetType with
    | .user => a.targetUser = some target
    | .product | .review => a.targetProduct = some target := by
  cases targetType <;> exact beq_iff_eq

theorem sameTarget_of_targets (ha : a.targets targetType target = true)
    (hb : b.targets targetType target = true) : SameTarget a b := by
  rw [targets_iff] at ha hb
  cases targetType with
  | user => exact Or.inl ⟨by rw [ha]; rfl, ha.trans hb.symm⟩
  | product => exact Or.inr ⟨by rw [ha]; rfl, ha.trans hb.symm⟩
  | review => exact Or.inr ⟨by rw [ha]; rfl, ha.trans hb.symm⟩

/-- `moderation_action_target_matches_kind`. -/
def ModerationAction.targetMatchesKind (a : ModerationAction) : Bool :=
  (a.kind == .userDormancy && a.targetUser.isSome && a.targetProduct.isNone) ||
    (a.kind == .productHide && a.targetUser.isNone && a.targetProduct.isSome)

theorem kind_of_targets (h : a.targetMatchesKind = true)
    (ht : a.targets targetType target = true) : a.kind = targetType.actionKind := by
  rw [targets_iff] at ht
  rw [ModerationAction.targetMatchesKind] at h
  cases targetType with
  | user =>
      rw [ht] at h
      cases hk : a.kind with
      | userDormancy => rfl
      | productHide => simp [hk] at h
  | product =>
      rw [ht] at h
      cases hk : a.kind with
      | userDormancy => simp [hk] at h
      | productHide => rfl
  | review =>
      rw [ht] at h
      cases hk : a.kind with
      | userDormancy => simp [hk] at h
      | productHide => rfl

/-- The check of the table, and that sanctions of one target that are not released are
    apart. -/
structure SanctionInv (s : Store) : Prop where
  kinds : ∀ a ∈ s.actions, a.targetMatchesKind = true
  apart : s.actions.Pairwise fun a b => SameTarget a b → released s a = false →
    released s b = false → Apart a b

instance (s : Store) : Decidable (SanctionInv s) :=
  decidable_of_iff ((∀ a ∈ s.actions, a.targetMatchesKind = true) ∧
    s.actions.Pairwise fun a b => SameTarget a b → released s a = false →
      released s b = false → Apart a b)
    ⟨fun ⟨h1, h2⟩ => ⟨h1, h2⟩, fun h => ⟨h.kinds, h.apart⟩⟩

theorem mem_liveActions : a ∈ liveActions targetType target t s ↔
    a ∈ s.actions ∧ a.inWindow t = true ∧ released s a = false ∧
      a.targets targetType target = true := by
  rw [liveActions, activeActions, List.mem_filter, List.mem_filter, Bool.and_eq_true,
    Bool.not_eq_true', and_assoc, and_assoc]

/-- Windows that are apart do not share a time. -/
theorem SanctionInv.length_live (h : SanctionInv s) :
    (liveActions targetType target t s).length ≤ 1 := by
  have hsub : (liveActions targetType target t s).Sublist s.actions :=
    List.filter_sublist.trans List.filter_sublist
  have hnone : (liveActions targetType target t s).Pairwise fun _ _ => False := by
    refine (h.apart.sublist hsub).imp_of_mem fun {a b} ha hb hapart => ?_
    obtain ⟨-, ha, hra, hta⟩ := mem_liveActions.mp ha
    obtain ⟨-, hb, hrb, htb⟩ := mem_liveActions.mp hb
    exact not_apart ha hb (hapart (sameTarget_of_targets hta htb) hra hrb)
  cases hl : liveActions targetType target t s with
  | nil => exact Nat.zero_le 1
  | cons a l =>
      rw [hl] at hnone
      cases l with
      | nil => exact Nat.le_refl 1
      | cons b l => exact False.elim ((List.pairwise_cons.mp hnone).1 b List.mem_cons_self)

/-! ## Steps -/

/-- What a commit does to the sanctions: releases are added, or one sanction that is apart
    from those in force. -/
inductive SanctionStep (s s' : Store) : Prop where
  | kept : s'.actions = s.actions → s.releases <+: s'.releases → SanctionStep s s'
  | added (a : ModerationAction) : a.targetMatchesKind = true →
      s'.actions = s.actions ++ [a] → s'.releases = s.releases →
      (∀ b ∈ s.actions, SameTarget b a → released s b = false → Apart b a) →
      SanctionStep s s'

/-- A release is never taken back. -/
theorem released_of_onward (h : s.releases <+: s'.releases) (hr : released s' a = false) :
    released s a = false := by
  rw [released, List.any_eq_false] at hr ⊢
  exact fun r hm => hr r (h.subset hm)

/-- **STEP**: sanctions stay apart. -/
theorem SanctionStep.inv (h : SanctionStep s s') (hi : SanctionInv s) : SanctionInv s' := by
  cases h with
  | kept hactions hreleases =>
      refine ⟨by rw [hactions]; exact hi.kinds, ?_⟩
      rw [hactions]
      exact hi.apart.imp fun hapart hsame ha hb =>
        hapart hsame (released_of_onward hreleases ha) (released_of_onward hreleases hb)
  | added a hkind hactions hreleases hnew =>
      have hsame : ∀ x, released s' x = released s x := by
        intro x
        rw [released, hreleases]
        rfl
      refine ⟨fun x hx => ?_, ?_⟩
      · rw [hactions] at hx
        rcases List.mem_append.mp hx with hx | hx
        · exact hi.kinds x hx
        · rw [List.mem_singleton.mp hx]
          exact hkind
      · rw [hactions, List.pairwise_append]
        refine ⟨hi.apart.imp fun {x y} hapart ht hx hy => ?_,
          List.pairwise_singleton _ _, fun b hb x hx ht hrb _ => ?_⟩
        · rw [hsame] at hx hy
          exact hapart ht hx hy
        · rw [List.mem_singleton.mp hx] at ht ⊢
          rw [hsame] at hrb
          exact hnew b hb ht hrb

/-- **STEP**: the release of a live sanction leaves the target without one. -/
theorem SanctionStep.unrestricted (h : SanctionStep s s') (hi : SanctionInv s)
    (ha : a ∈ liveActions targetType target t s) (hreleased : released s' a = true) :
    liveActions targetType target t s' = [] := by
  cases h with
  | added x _ _ hreleases _ =>
      -- no release was added
      have hsame : released s a = true := by
        rw [released, ← hreleases]
        exact hreleased
      rw [(mem_liveActions.mp ha).2.2.1] at hsame
      cases hsame
  | kept hactions hreleases =>
      rw [List.eq_nil_iff_forall_not_mem]
      intro b hb
      obtain ⟨hb, hwindow, hrb, htb⟩ := mem_liveActions.mp hb
      rw [hactions] at hb
      have hlive : b ∈ liveActions targetType target t s :=
        mem_liveActions.mpr ⟨hb, hwindow, released_of_onward hreleases hrb, htb⟩
      -- it was live before, and so is the one that is released now
      have hone : (liveActions targetType target t s).length ≤ 1 := hi.length_live
      obtain ⟨x, hx⟩ := List.length_eq_one_iff.mp
        (Nat.le_antisymm hone (List.length_pos_of_mem ha))
      rw [hx, List.mem_singleton] at ha hlive
      rw [hlive, ← ha, hreleased] at hrb
      cases hrb

/-! ## The moment of an insert -/

/-- No sanction of the target in force starts inside the new window or has ended between
    the clock reading and the look for a live one. -/
def TimelyFor (targetType : TargetType) (target : Nat) (clock checkedAt : Time)
    (s : Store) : Prop :=
  ∀ b ∈ s.actions, b.targets targetType target = true → released s b = false →
    (b.startsAt ≤ clock ∧ (b.expiresAt ≤ clock ∨ checkedAt < b.expiresAt)) ∨
      clock + ACTION_DURATION ≤ b.startsAt

instance (targetType : TargetType) (target : Nat) (clock checkedAt : Time) (s : Store) :
    Decidable (TimelyFor targetType target clock checkedAt s) :=
  inferInstanceAs (Decidable (∀ b ∈ s.actions, _ → _ → _))

/-- Every insert of a sanction is timely. -/
def Timely (v : Obs) (_ : Time) (s : Store) : Prop :=
  match v with
  | .sanctioning targetType target clock checkedAt =>
      TimelyFor targetType target clock checkedAt s
  | _ => True

instance (v : Obs) (now : Time) (s : Store) : Decidable (Timely v now s) :=
  match v with
  | .sanctioning targetType target clock checkedAt =>
      inferInstanceAs (Decidable (TimelyFor targetType target clock checkedAt s))
  | .savingUser _ => isTrue trivial
  | .reserving _ _ _ _ => isTrue trivial
  | .listing _ => isTrue trivial
  | .bumping _ => isTrue trivial
  | .ending _ _ => isTrue trivial
  | .allocating _ => isTrue trivial
  | .deciding _ => isTrue trivial
  | .paged _ _ _ => isTrue trivial
  | .editing _ => isTrue trivial
  | .savingFile _ => isTrue trivial
  | .deletingFile _ => isTrue trivial

/-- The context of sessions whose inserts are timely. -/
def sanctionCtx (p : Platform) : Ctx Store Lock Exn Obs :=
  market p ⟨fun _ _ => True, fun _ s s' => SanctionInv s → SanctionStep s s'⟩ Timely
    fun _ _ _ => True

theorem sanctionCtx_abides (p : Platform) : Abides p (sanctionCtx p) :=
  market_abides ⟨fun _ => trivial, fun _ _ _ _ _ => trivial⟩ fun _ _ => trivial

/-- The sanctions of a locked target are those it had. -/
theorem locked_action
    (h : (marketDiscipline p).rely [targetLock targetType target] s s')
    (hb : b ∈ s'.actions) (ht : b.targets targetType target = true) : b ∈ s.actions := by
  have hsame := h.2 _ (List.mem_singleton.mpr rfl)
  have hproduct : ∀ n, rowSame .product n s s' → b.targetProduct = some n → b ∈ s.actions := by
    intro n hrow hn
    have hb' : b ∈ s'.actions.filter (·.targetProduct == some n) :=
      List.mem_filter.mpr ⟨hb, beq_iff_eq.mpr hn⟩
    rw [hrow.2] at hb'
    exact (List.mem_filter.mp hb').1
  rw [targets_iff] at ht
  cases targetType with
  | user =>
      have hb' : b ∈ s'.actions.filter (·.targetUser == some target) :=
        List.mem_filter.mpr ⟨hb, beq_iff_eq.mpr ht⟩
      rw [hsame.2.1] at hb'
      exact (List.mem_filter.mp hb').1
  | product => exact hproduct target hsame ht
  | review => exact hproduct target hsame ht

/-- **INSERT**: after the look and the timely moment, the new window is apart from those
    in force. -/
theorem Checked.apart {clock : Time} {held : List Lock}
    (h : Checked (sanctionCtx p) targetType target clock held s) (hi : SanctionInv s)
    (hb : b ∈ s.actions) (ht : b.targets targetType target = true)
    (hreleased : released s b = false) {n : Nat} :
    Apart b (sanctionRow n targetType target clock) := by
  obtain ⟨checkedAt, now, s0, s1, hclock, hnone, h01, htimely, h1⟩ := h.looked
  have hb1 : b ∈ s1.actions := locked_action h1 hb ht
  have hr1 : released s1 b = false := released_of_onward h1.1.releases hreleased
  have hb0 : b ∈ s0.actions := locked_action h01 hb1 ht
  have hr0 : released s0 b = false := released_of_onward h01.1.releases hr1
  have hwindow := hnone b hb0 ht hr0 (kind_of_targets (hi.kinds b hb) ht)
  have hstarts : (sanctionRow n targetType target clock).startsAt = clock ∧
      (sanctionRow n targetType target clock).expiresAt = clock + ACTION_DURATION := by
    cases targetType <;> exact ⟨rfl, rfl⟩
  rw [Apart, hstarts.1, hstarts.2]
  have htime : TimelyFor targetType target clock checkedAt s1 := htimely
  rcases htime b hb1 ht hr1 with ⟨hstart, hend | hend⟩ | hlater
  · exact Or.inl hend
  · -- it would have been live at the look
    rw [ModerationAction.inWindow, decide_eq_true (Nat.le_trans hstart hclock),
      decide_eq_true hend] at hwindow
    exact nomatch hwindow
  · exact Or.inr hlater

theorem sanctionRow_matches (n : Nat) (clock : Time) :
    (sanctionRow n targetType target clock).targetMatchesKind = true := by
  cases targetType <;> rfl

/-- Another sanction of the new one's target is of the locked target. -/
theorem targets_of_sameTarget {n : Nat} {clock : Time}
    (h : SameTarget b (sanctionRow n targetType target clock)) :
    b.targets targetType target = true := by
  rw [targets_iff]
  rcases h with ⟨hsome, hsame⟩ | ⟨hsome, hsame⟩
  · cases targetType with
    | user => exact hsame
    | product => rw [hsame] at hsome; exact nomatch hsome
    | review => rw [hsame] at hsome; exact nomatch hsome
  · cases targetType with
    | user => rw [hsame] at hsome; exact nomatch hsome
    | product => exact hsame
    | review => exact hsame

/-- **STEP**, of the operations that insert sanctions. -/
theorem Moderated.sanctionStep {held : List Lock} {f : Store → Store}
    (h : Moderated (sanctionCtx p) targetType target held s f) (hi : SanctionInv s) :
    SanctionStep s (f s) := by
  have hadded : ∀ (n : Nat) (clock : Time),
      Checked (sanctionCtx p) targetType target clock held s →
      (f s).actions = s.actions ++ [sanctionRow n targetType target clock] →
      (f s).releases = s.releases → SanctionStep s (f s) :=
    fun n clock hc hactions hreleases => .added _ (sanctionRow_matches n clock) hactions
      hreleases fun b hb hsame hr => hc.apart hi hb (targets_of_sameTarget hsame) hr
  cases h with
  | untouched h =>
      refine .kept (h s).actions ?_
      rw [(h s).releases]
  | sanctioned n clock hc h => exact hadded n clock hc (h s).actions (h s).releases
  | reported n clock hc _ h =>
      refine hadded n clock hc ?_ ?_
      · rw [(h s).actions, bumpTarget]
        split <;> rfl
      · rw [(h s).releases, bumpTarget]
        split <;> rfl

/-! ## The operations -/

/-- Reports, evaluations of the threshold, and sanctions and releases by staff. -/
inductive SanctionOp where
  | submitReport (reporter : Nat) (targetType : TargetType) (target : Nat)
      (context : ReportContext) (reason : String)
  | evaluateThreshold (targetType : TargetType) (target : Nat)
  | applySanction (actor : Actor) (targetType : TargetType) (target : Nat)
      (reason : String) (version : Int) (reauthenticatedAt : Option Time)
  | releaseSanction (actor : Actor) (sanction : Nat) (reason : String) (version : Int)
      (reauthenticatedAt : Option Time)

/-- The program of an operation; what it answers does not matter here. -/
def SanctionOp.run (p : Platform) : SanctionOp → M Unit
  | .submitReport reporter targetType target context reason => do
      let _ ← Market.submitReport reporter targetType target context reason
      return ()
  | .evaluateThreshold targetType target => do
      let _ ← Market.evaluateThreshold targetType target
      return ()
  | .applySanction actor targetType target reason version reauthenticatedAt => do
      let _ ← Market.applySanction p actor targetType target reason version reauthenticatedAt
      return ()
  | .releaseSanction actor sanction reason version reauthenticatedAt => do
      let _ ← Market.releaseSanction p actor sanction reason version reauthenticatedAt
      return ()

/-- Sanctions stay, and releases are added. -/
def SanctionsKept (s s' : Store) : Prop :=
  s'.actions = s.actions ∧ s.releases <+: s'.releases

theorem sanctionsKept_composes : Composes SanctionsKept where
  refl _ := ⟨rfl, List.prefix_rfl⟩
  trans _ _ _ h h' := ⟨h'.1.trans h.1, h.2.trans h'.2⟩

/-- The writes of a release. -/
theorem mayRun_release : MayRun (sanctionCtx p) [.release, .adminAudit] := by
  have hA := sanctionCtx_abides p
  intro β m hm
  refine mayRun_of_frame hA.lawful (fun _ _ _ _ _ => trivial) (hA.permits _)
    sanctionsKept_composes (fun k hk held f hf s => ?_) (fun _ _ _ hleave hkept =>
      ⟨hleave.1, hleave.2, fun _ => .kept hkept.1 hkept.2⟩) m hm
  cases hf with
  | release _ _ _ => exact ⟨rfl, List.prefix_append _ _⟩
  | adminAudit _ => exact ⟨rfl, List.prefix_rfl⟩
  | _ => exact absurd hk (by decide)

/-- A transaction that inserts at most one sanction. -/
theorem top_moderated {α : Type} {m : M α}
    (h : ∀ w : World Store Lock Obs, w.sess.pend = id → w.sess.frames ≠ [] →
      Body (sanctionCtx p) m w (fun _ w' =>
        Moderated (sanctionCtx p) targetType target w'.sess.held w'.db w'.sess.pend) anyError) :
    Top (sanctionCtx p) (atomic m) :=
  Top.atomicEnds (P := fun _ held s f => Moderated (sanctionCtx p) targetType target held s f)
    (sanctionCtx_abides p).lawful h
    (fun _ _ _ _ hm hn => hm.near (sanctionCtx_abides p) hn)
    fun _ _ _ _ hleave hm => ⟨hleave.1, hleave.2, hm.sanctionStep⟩

theorem top_sanctionOp (op : SanctionOp) : Top (sanctionCtx p) (op.run p) := by
  have hA := sanctionCtx_abides p
  have hshow : ShowsSanctions (sanctionCtx p) := fun _ _ _ _ _ _ _ => trivial
  have haudit : ∀ a, Top (sanctionCtx p) (audit a) :=
    top_audit (mayRun_release.sub (by decide))
  cases op with
  | submitReport reporter targetType target context reason =>
      refine Top.bind (top_submitReport (fun reason' => ?_) reason) fun _ => Top.ret _
      exact top_moderated fun w hpend hopen =>
        body_submitReport hA hshow reporter targetType target context reason' hpend hopen
  | evaluateThreshold targetType target =>
      refine Top.bind ?_ fun _ => Top.ret _
      exact top_moderated fun w hpend hopen =>
        body_evaluateThreshold hA hshow targetType target hpend hopen
  | applySanction actor targetType target reason version at' =>
      refine Top.bind (top_applySanction (fun reason' => ?_) haudit reason) fun _ => Top.ret _
      exact top_moderated fun w hpend hopen =>
        body_applySanction hA hshow actor targetType target reason' version at' hpend hopen
  | releaseSanction actor sanction reason version at' =>
      refine Top.bind (top_releaseSanction (fun reason' => ?_) haudit reason) fun _ => Top.ret _
      exact mayRun_release _ fun _ hΓ' hp _ =>
        safe_releaseSanctionBody hΓ' hp actor sanction reason' version at'

/-! ## Every run -/

section Runs

variable {ι : Type} [DecidableEq ι] {ops : ι → SanctionOp} {now : Time}
  {c c' : Config ι Store Lock Exn Obs Unit}

omit [DecidableEq ι] in
theorem sanctionCtx_fits :
    Fits (postgres fun _ _ => False) (fun _ : ι => sanctionCtx p) :=
  market_fits p _ (fun _ => ⟨fun _ => trivial, fun _ _ _ _ _ => trivial⟩) _ _

/-- **RUN**: sanctions are apart in every store reached. -/
theorem sanctionInv_reached (h : SanctionInv s)
    (hr : Reached s now (fun i => (ops i).run p) c) (htimely : AllSee (fun _ => Timely) c) :
    SanctionInv c.db :=
  top_invariant sanctionCtx_fits (fun i => top_sanctionOp (ops i)) (fun _ _ _ h => False.elim h)
    (fun _ _ _ _ hi hg => (hg.2.2 hi).inv hi) hr htimely h

/-- **RUN**: what one step does to the sanctions. -/
theorem sanctionStep_reached (h : SanctionInv s)
    (hr : Reached s now (fun i => (ops i).run p) c) {who : Option ι}
    (hs : Step (postgres fun _ _ => False) who c c') (htimely : AllSee (fun _ => Timely) c') :
    SanctionStep c.db c'.db := by
  have hsame : c'.db = c.db → SanctionStep c.db c'.db := by
    intro hdb
    rw [hdb]
    exact .kept rfl List.prefix_rfl
  cases who with
  | none =>
      cases hs with
      | tick _ t _ => exact hsame rfl
      | env _ s' he => exact False.elim he
  | some i =>
      rcases run_step sanctionCtx_fits (Q := fun _ _ w => Idle w)
        (supported_start (sanctionCtx_fits (ι := ι)).lawful fun i =>
          top_sanctionOp (ops i) _ ⟨rfl, rfl, rfl⟩) hr hs htimely with hdb | hg
      · exact hsame hdb
      · exact hg.2.2 (sanctionInv_reached h hr (allSee_of_step hs htimely))

end Runs

/-- **AT MOST ONE LIVE SANCTION**: in every interleaving of reports, evaluations, sanctions
    and releases whose inserts are timely, no user and no product has two sanctions in
    force at one time in any store reached, and the release of the one that is in force
    leaves the target without any. -/
theorem one_live_sanction {ι : Type} [DecidableEq ι] (p : Platform) (ops : ι → SanctionOp)
    {s : Store} {now : Time} {c : Config ι Store Lock Exn Obs Unit} (h : SanctionInv s)
    (hr : Reached s now (fun i => (ops i).run p) c) (htimely : AllSee (fun _ => Timely) c) :
    (∀ targetType target t, (liveActions targetType target t c.db).length ≤ 1) ∧
      ∀ who c', Step (postgres fun _ _ => False) who c c' → AllSee (fun _ => Timely) c' →
        ∀ targetType target t, ∀ a ∈ liveActions targetType target t c.db,
          released c'.db a = true → liveActions targetType target t c'.db = [] := by
  have hi := sanctionInv_reached h hr htimely
  refine ⟨fun _ _ _ => hi.length_live, ?_⟩
  intro who c' hs htimely' targetType target t a ha hreleased
  exact (sanctionStep_reached h hr hs htimely').unrestricted hi ha hreleased

/-! ## Two sanctions in force -/

/-- Two members of staff who may sanction one user. -/
def twoStaff : Store where
  users := [{ pk := 1, username := "seller_one" },
    { pk := 2, username := "staff_one", isStaff := true },
    { pk := 3, username := "staff_two", isStaff := true }]
  scopeGrants := [
    { pk := 4, staff := 2, codename := "apply_sanction", targetUser := some 1, grantedBy := 9 },
    { pk := 5, staff := 3, codename := "apply_sanction", targetUser := some 1, grantedBy := 9 },
    { pk := 6, staff := 3, codename := "release_sanction", targetUser := some 1,
      grantedBy := 9 }]

/-- A member of staff with every permission but the one over scopes. -/
def staffMember (pk : Nat) : Actor := ⟨pk, true, true, false, fun _ => true, false⟩

/-- Both sanction the user, and the second one lifts the sanction with primary key 8. -/
def sanctionTwice : Fin 3 → SanctionOp
  | 0 => .applySanction (staffMember 2) .user 1 "spam in many rooms" 0 (some 1000)
  | 1 => .applySanction (staffMember 3) .user 1 "spam in many rooms" 0 (some 1000)
  | 2 => .releaseSanction (staffMember 3) 8 "lifted on review" 8 (some 1000)

def sanctionTwiceStart : Config (Fin 3) Store Lock Exn Obs Unit :=
  Config.start twoStaff 1000 fun i => (sanctionTwice i).run plainPlatform

/-- The first request reads the clock and waits for the user; the second one sanctions the
    user meanwhile; the first one looks at its old clock reading, finds nothing and inserts
    a second sanction, which outlives the release of the first. -/
theorem two_live_sanctions : ∃ c c' : Config (Fin 3) Store Lock Exn Obs Unit,
    Reached twoStaff 1000 (fun i => (sanctionTwice i).run plainPlatform) c ∧
      Reaches (postgres fun _ _ => False) c c' ∧ SanctionInv twoStaff ∧
      (liveActions .user 1 3000 c.db).length = 2 ∧
      (liveActions .user 1 3000 c'.db).map (·.pk) = [7] := by
  have hplay : ((play validateBalancedJournal [.run 0 2 (fun _ => 7), .wait 1000,
      .run 1 100 (fun _ => 8), .run 0 100 (fun _ => 7)] sanctionTwiceStart).bind fun d =>
        (play validateBalancedJournal [.run 2 100 id] d).map fun d' =>
          ((liveActions .user 1 3000 d.db).length,
            (liveActions .user 1 3000 d'.db).map (·.pk))) = some (2, [7]) := by
    decide +kernel
  obtain ⟨c, c', hr, hr', htwo, hone⟩ :=
    reaches_of_plays (D := postgres fun _ _ => False) (f := fun d => _) (g := fun d => _) hplay
  exact ⟨c, c', hr, hr', by decide, htwo, hone⟩

/-- One request after the other, and the release. -/
theorem one_live_sanction_then_release : ∃ c : Config (Fin 3) Store Lock Exn Obs Unit,
    Reached twoStaff 1000 (fun i => (sanctionTwice i).run plainPlatform) c ∧
      (c.db.actions.map (·.pk), c.db.releases.map (·.action)) = ([8], [8]) ∧
      (∀ targetType target t, (liveActions targetType target t c.db).length ≤ 1) ∧
      ∀ who c', Step (postgres fun _ _ => False) who c c' → AllSee (fun _ => Timely) c' →
        ∀ targetType target t, ∀ a ∈ liveActions targetType target t c.db,
          released c'.db a = true → liveActions targetType target t c'.db = [] := by
  have hplay : (play validateBalancedJournal [.run 1 100 (fun _ => 8), .wait 1000,
      .run 0 100 (fun _ => 7), .run 2 100 id] sanctionTwiceStart).map (fun d =>
        ((d.db.actions.map (·.pk), d.db.releases.map (·.action)),
          decide (∀ i, ∀ x ∈ marksOf (d.sess i).hist, Timely x.2.2 x.1 x.2.1))) =
      some (([8], [8]), true) := by decide +kernel
  obtain ⟨c, hr, hc⟩ := reaches_of_play (D := postgres fun _ _ => False) (f := fun d => _) hplay
  obtain ⟨hrows, htimely⟩ := Prod.ext_iff.mp hc
  refine ⟨c, hr, hrows, ?_⟩
  exact one_live_sanction plainPlatform sanctionTwice (by decide) hr
    (allSee_iff.mpr (of_decide_eq_true htimely))

end Market
