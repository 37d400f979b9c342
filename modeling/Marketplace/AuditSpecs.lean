import Marketplace.AuditTrail

/-! # The transactions of the staff, and what they audit

    A decision of the staff is one transaction: checks, one look for what is decided already,
    the write and its audit.  A refusal rolls the transaction back, and is audited by another
    one. -/

namespace Market

open TxnProgram TxnInterleaving TxnLogic TxnProtection TxnBody TxnFrames EventLog

variable {p : Platform} {Γ : Ctx Store Lock Exn Obs} {w w' : World Store Lock Obs}
  {s s' : Store} {targetType : TargetType} {target n : Nat} {held : List Lock}

/-! ## The insert of a grant -/

/-- A new active grant takes its key in the partial index of its target. -/
theorem respects_addGrant {actor staff : Nat} {codename : String}
    (hpk : .unique (.pk .scopeGrant n) ∈ held)
    (hkey : .unique (scopeKey staff codename targetType target) ∈ held) :
    Respects p held s (addGrant (newGrant n actor staff codename targetType target) s) := by
  refine Respects.of_table .scopeGrant ?_ { Keeps.refl s with scopeGrants := ?_ } ?_ ?_ ?_
  · intro t ht
    cases t <;> first | rfl | exact absurd rfl ht
  · exact (List.prefix_append _ _).map _
  · intro t m ht _
    cases t with
    | scopeGrant => exact rowStays_append _
    | _ => exact absurd ht (by decide)
  · exact fun _ _ ht => absurd ht (by decide)
  · intro i hi ho h
    cases i with
    | pk t m =>
        cases hi
        refine index_of_append ho (fun hq => ?_) h
        cases targetType <;> exact (eq_of_beq hq) ▸ hpk
    | scopeUser x c y =>
        refine index_of_append ho (fun hq => ?_) h
        cases targetType <;> simp_all [newGrant, scopeKey]
    | scopeProduct x c y =>
        refine index_of_append ho (fun hq => ?_) h
        cases targetType <;> simp_all [newGrant, scopeKey]
    | scopeReview x c y =>
        refine index_of_append ho (fun hq => ?_) h
        cases targetType <;> simp_all [newGrant, scopeKey]
    | _ => cases hi

/-! ## What the audits say -/

/-- An audit of a refusal tells of no decision. -/
theorem AdminAudit.change_refused {a : AdminAudit} (h : a.result ≠ "SUCCESS") :
    a.change = none := if_pos h

/-- A refused request is audited and rolled back with its audit. -/
theorem body_auditAndRaise (hA : Abides p Γ) {α : Type} (a : AdminAudit) (e : Exn)
    {P : α → World Store Lock Obs → Prop} (hopen : w.sess.frames ≠ []) :
    Body Γ (do audit a; raise e : M α) w P anyError :=
  Body.bind hA.lawful (body_audit hA a hopen) fun _ _ _ _ => Body.raise hA.lawful trivial

/-- Nothing has been written so far. -/
theorem trailEnd_quiet (hpend : w.sess.pend = id) :
    TrailEnd w.sess.held w.db w.sess.pend := by
  refine .same fun s => ?_
  rw [hpend]
  exact TrailSame.refl s

/-- A decision that was written, and its audit. -/
theorem body_audited (hA : Abides p Γ) {α : Type} {a : AdminAudit} {x : StaffChange}
    {g : Store → Store} (r : α) (ha : a.change = some x) (hx : Enacts w.sess.held w.db x g)
    (hpend : ∀ s, TrailSame (g s) (w.sess.pend s)) (hopen : w.sess.frames ≠ []) :
    Body Γ (do audit a; return r : M α) w
      (fun _ w' => TrailEnd w'.sess.held w'.db w'.sess.pend) anyError := by
  have hΓ := hA.lawful
  refine Body.bind hΓ (body_audit hA a hopen) fun _ w1 h1 hp => Body.ret hΓ ?_
  refine .enacted a x g ha (hx.near hA h1.toNear) fun s => ?_
  rw [hp]
  exact (hpend s).addAdminAudit a

theorem look_requireReauthentication (hΓ : Lawful Γ) (at' : Option Time) (now : Time) :
    Look Γ (requireReauthentication at' now) w (fun _ _ => True) anyError := by
  cases at' with
  | none => exact Look.raise hΓ trivial
  | some t => exact (look_raiseIf hΓ fun _ => trivial).mono fun _ _ _ _ => trivial

theorem look_requireScope (hΓ : Lawful Γ) (actor : Actor) (codename : String)
    (targetType : TargetType) (target : Nat) :
    Look Γ (requireScope actor codename targetType target) w (fun _ _ => True) anyError := by
  refine Look.bind hΓ (look_raiseIf hΓ fun _ => trivial) fun _ _ _ _ => ?_
  refine Look.bind hΓ (look_fetch anyError_faults _) fun grant _ _ _ => ?_
  cases grant with
  | none => exact Look.raise hΓ trivial
  | some grant => exact Look.ret hΓ trivial

/-! ## Sanctions -/

/-- **SPECIFICATION** of the transaction of `apply_sanction`, for the trail. -/
theorem body_applySanction_trail (hA : Abides p Γ) (hshow : ShowsSanctions Γ) (actor : Actor)
    (htype : targetType ≠ .review) (target : Nat) (reason : String) (version : Int)
    (at' : Option Time) (hpend : w.sess.pend = id) (hopen : w.sess.frames ≠ []) :
    Body Γ (applySanctionBody actor targetType target reason version at') w
      (fun _ w' => TrailEnd w'.sess.held w'.db w'.sess.pend) anyError := by
  have hΓ := hA.lawful
  refine Body.look hΓ (look_clockTimestamp anyError_faults) fun now w1 h1 _ => ?_
  refine Body.look hΓ (look_requireReauthentication hΓ at' now) fun _ w2 h2 _ => ?_
  refine Body.look hΓ (look_lockSanctionTarget hΓ targetType target w2)
    fun currentVersion w3 h3 hlock => ?_
  refine Body.look hΓ (look_requireScope hΓ actor _ targetType target) fun _ w4 h4 _ => ?_
  have h04 : Still Γ w w4 := h1.trans hΓ (h2.trans hΓ (h3.trans hΓ h4))
  have hopen4 : w4.sess.frames ≠ [] := by
    rw [h04.frames]
    exact hopen
  dsimp only
  split
  · exact body_auditAndRaise hA _ _ hopen4
  · refine Body.look hΓ (look_fetch anyError_faults _) fun active w5 h5 _ => ?_
    have hpend5 : w5.sess.pend = id := h5.pend.trans (h04.pend.trans hpend)
    cases active with
    | some action => exact Body.ret hΓ (trailEnd_quiet hpend5)
    | none =>
        refine Body.look hΓ (look_shown hshow) fun _ w6 h6 _ => ?_
        have hpend6 : w6.sess.pend = id := h6.pend.trans hpend5
        refine Body.bind hΓ (body_createAction_key hA anyError_faults trivial
          (h6.held (h5.held (h4.held hlock))) (fun s => ?_) now)
            fun a w7 h7 ⟨n, ha, hfree, hp7⟩ => ?_
        · rw [hpend6]
          rfl
        refine body_audited hA _ (x := .sanctioned n targetType.text target)
          (g := addAction (sanctionRow n targetType target now)) ?_
          (.sanctioned n targetType target now htype hfree.toFree) (fun s => ?_) ?_
        · have hpk : a.pk = n := by rw [ha, sanctionRow_pk]
          simp [AdminAudit.change, AdminAudit.number, List.lookup_cons, hpk]
        · rw [hp7, ha, hpend6]
          exact TrailSame.refl _
        · rw [h7.frames, h6.frames, h5.frames]
          exact hopen4

/-- **SPECIFICATION** of the transaction of `release_sanction`, for the trail. -/
theorem body_releaseSanction_trail (hA : Abides p Γ) (actor : Actor) (sanction : Nat)
    (reason : String) (version : Int) (at' : Option Time) (hpend : w.sess.pend = id)
    (hopen : w.sess.frames ≠ []) :
    Body Γ (releaseSanctionBody actor sanction reason version at') w
      (fun _ w' => TrailEnd w'.sess.held w'.db w'.sess.pend) anyError := by
  have hΓ := hA.lawful
  refine Body.look hΓ (look_clockTimestamp anyError_faults) fun now w1 h1 _ => ?_
  refine Body.look hΓ (look_requireReauthentication hΓ at' now) fun _ w2 h2 _ => ?_
  refine Body.look (P := fun action w' => .row .action action.pk ∈ w'.sess.held) hΓ
    (Look.tryCatch (G := anyError) hΓ ((look_getForUpdate hΓ anyError_faults _ _ _ _
      trivial).mono fun _ _ _ hr => hr.2.2) fun e _ _ _ => ?_) fun action w3 h3 hlock => ?_
  · split <;> exact Look.raise hΓ trivial
  refine Body.look hΓ (look_requireScope hΓ actor _ _ _) fun _ w4 h4 _ => ?_
  have h04 : Still Γ w w4 := h1.trans hΓ (h2.trans hΓ (h3.trans hΓ h4))
  have hopen4 : w4.sess.frames ≠ [] := by
    rw [h04.frames]
    exact hopen
  dsimp only
  split
  · exact body_auditAndRaise hA _ _ hopen4
  · refine Body.look hΓ (look_fetch anyError_faults _) fun existing w5 h5 _ => ?_
    have hpend5 : w5.sess.pend = id := h5.pend.trans (h04.pend.trans hpend)
    have hopen5 : w5.sess.frames ≠ [] := by
      rw [h5.frames]
      exact hopen4
    cases existing with
    | some release => exact Body.ret hΓ (trailEnd_quiet hpend5)
    | none =>
        dsimp only
        split
        · exact body_auditAndRaise hA _ _ hopen5
        · refine Body.bind hΓ (body_insertRow hΓ anyError_faults trivial fun held hsub hkeys s =>
            hA.leave _ _ _ (respects_addRelease (hkeys _ List.mem_cons_self)
              (hsub (h5.held (h4.held hlock))))) fun _ w6 h6 hi => ?_
          refine body_audited hA _ ?_ (.released ⟨action.pk, actor.pk, reason⟩) (fun s => ?_) ?_
          · simp [AdminAudit.change, AdminAudit.number, List.lookup_cons]
          · rw [hi.pend, hpend5]
            exact TrailSame.refl _
          · rw [h6.frames]
            exact hopen5

/-! ## Scopes -/

/-- The insert of `grant_scope` and its audit. -/
theorem body_createGrant (hA : Abides p Γ) (actor : Actor) (staff : Nat) (codename : String)
    (targetType : TargetType) (target : Nat) (reason : String) (hpend : w.sess.pend = id)
    (hopen : w.sess.frames ≠ []) :
    Body Γ (createGrant actor staff codename targetType target reason) w
      (fun _ w' => TrailEnd w'.sess.held w'.db w'.sess.pend) anyError := by
  have hΓ := hA.lawful
  refine Body.look hΓ Look.fresh fun n w1 h1 _ => ?_
  refine Body.bind (P := fun _ w2 => w2.sess.pend =
      addGrant (newGrant n actor.pk staff codename targetType target)) hΓ
    (Body.tryCatch (G := anyError) hΓ ((body_insertRow hΓ anyError_faults trivial
      fun held _ hkeys s => hA.leave _ _ _ (respects_addGrant (hkeys _ List.mem_cons_self)
        (hkeys _ (List.mem_cons_of_mem _ List.mem_cons_self)))).mono fun _ w2 _ hi => ?_)
      fun e w2 _ _ => ?_) fun _ w2 h2 hp2 => ?_
  · rw [hi.pend, h1.pend, hpend]
    rfl
  · split <;> exact Body.raise hΓ trivial
  · have hpk : (newGrant n actor.pk staff codename targetType target).pk = n := by
      cases targetType <;> rfl
    refine body_audited hA _ ?_ (.granted n actor.pk staff codename targetType target)
      (fun s => ?_) ?_
    · simp [AdminAudit.change, AdminAudit.number, List.lookup_cons, hpk]
    · rw [hp2]
      exact TrailSame.refl _
    · rw [h2.frames, h1.frames]
      exact hopen

/-- **SPECIFICATION** of the transaction of `grant_scope`, for the trail. -/
theorem body_grantScope_trail (hA : Abides p Γ) (actor : Actor) (staff : Nat)
    (codename : String) (targetType : TargetType) (target : Nat) (reason : String)
    (version : Int) (at' : Option Time) (hpend : w.sess.pend = id)
    (hopen : w.sess.frames ≠ []) :
    Body Γ (grantScopeBody actor staff codename targetType target reason version at') w
      (fun _ w' => TrailEnd w'.sess.held w'.db w'.sess.pend) anyError := by
  have hΓ := hA.lawful
  refine Body.look hΓ (look_clockTimestamp anyError_faults) fun now w1 h1 _ => ?_
  refine Body.look hΓ (look_requireReauthentication hΓ at' now) fun _ w2 h2 _ => ?_
  refine Body.look hΓ (look_raiseIf hΓ fun _ => trivial) fun _ w3 h3 _ => ?_
  refine Body.look (P := fun _ _ => True) hΓ (Look.tryCatch (G := anyError) hΓ
    ((look_getForUpdate hΓ anyError_faults _ _ _ _ trivial).mono fun _ _ _ _ => trivial)
    fun e _ _ _ => ?_) fun row w4 h4 _ => ?_
  · split <;> exact Look.raise hΓ trivial
  refine Body.look hΓ (look_raiseIf hΓ fun _ => trivial) fun _ w5 h5 _ => ?_
  have h05 : Still Γ w w5 := h1.trans hΓ (h2.trans hΓ (h3.trans hΓ (h4.trans hΓ h5)))
  have hopen5 : w5.sess.frames ≠ [] := by
    rw [h05.frames]
    exact hopen
  split
  · exact body_auditAndRaise hA _ _ hopen5
  · refine Body.look hΓ (look_fetch anyError_faults _) fun found w6 h6 _ => ?_
    refine Body.look hΓ (look_raiseIf hΓ fun _ => trivial) fun _ w7 h7 _ => ?_
    have h57 : Still Γ w5 w7 := h6.trans hΓ h7
    refine body_createGrant hA actor row.pk codename targetType target reason
      (h57.pend.trans (h05.pend.trans hpend)) ?_
    rw [h57.frames]
    exact hopen5

/-- What `revoke_scope` writes to the row. -/
def AdminScopeGrant.revoke (actor : Nat) (now : Time) (g : AdminScopeGrant) : AdminScopeGrant :=
  { g with revokedAt := some now, revokedBy := some actor, version := g.version + 1 }

/-- The writes of `revoke_scope` and their audit. -/
theorem body_revokeGrant_trail (hA : Abides p Γ)
    (hbump : ∀ n now s, Γ.given (.bumping n) now s → Γ.shown (.bumping n) now s)
    (actor : Actor) (grant : AdminScopeGrant) (reason : String) (now : Time)
    (hpend : w.sess.pend = id) (hopen : w.sess.frames ≠ []) :
    Body Γ (revokeGrant actor grant reason now) w
      (fun _ w' => TrailEnd w'.sess.held w'.db w'.sess.pend) anyError := by
  have hΓ := hA.lawful
  refine Body.bind hΓ (body_updateRows hΓ anyError_faults fun held _ hlocks s =>
    hA.leave _ _ _ (respects_updateGrant (hlocks _ List.mem_cons_self) fun _ => ⟨rfl, rfl⟩))
    fun _ w1 h1 ⟨hp1, _⟩ => ?_
  refine Body.look (P := fun _ _ => True) hΓ ((Look.observe fun _ _ hgiven =>
    hbump _ _ _ hgiven).mono fun _ _ _ _ => trivial) fun _ w2 h2 _ => ?_
  refine Body.bind hΓ (body_updateRows hΓ anyError_faults fun held _ hlocks s =>
    hA.leave _ _ _ (respects_updateUser (f := fun u => { u with authEpoch := u.authEpoch + 1 })
      (fun _ _ => rfl) (hlocks _ List.mem_cons_self))) fun _ w3 h3 ⟨hp3, _⟩ => ?_
  refine Body.look hΓ (look_getRow hΓ anyError_faults _ _ trivial) fun stored w4 h4 _ => ?_
  refine body_audited hA _ ?_ (.revoked grant.pk actor.pk (·.revoke actor.pk now) fun _ => rfl)
    (fun s => ?_) ?_
  · simp [AdminAudit.change, AdminAudit.number]
  · rw [h4.pend, hp3, h2.pend, hp1, hpend]
    exact ⟨rfl, rfl, rfl, rfl, rfl, rfl⟩
  · rw [h4.frames, h3.frames, h2.frames, h1.frames]
    exact hopen

/-- **SPECIFICATION** of the transaction of `revoke_scope`, for the trail. -/
theorem body_revokeScope_trail (hA : Abides p Γ)
    (hbump : ∀ n now s, Γ.given (.bumping n) now s → Γ.shown (.bumping n) now s)
    (actor : Actor) (grant : Nat) (reason : String) (version : Int) (at' : Option Time)
    (hpend : w.sess.pend = id) (hopen : w.sess.frames ≠ []) :
    Body Γ (revokeScopeBody actor grant reason version at') w
      (fun _ w' => TrailEnd w'.sess.held w'.db w'.sess.pend) anyError := by
  have hΓ := hA.lawful
  refine Body.look hΓ (look_clockTimestamp anyError_faults) fun now w1 h1 _ => ?_
  refine Body.look hΓ (look_requireReauthentication hΓ at' now) fun _ w2 h2 _ => ?_
  refine Body.look hΓ (look_raiseIf hΓ fun _ => trivial) fun _ w3 h3 _ => ?_
  refine Body.look (P := fun _ _ => True) hΓ (Look.tryCatch (G := anyError) hΓ
    (Look.bind hΓ (look_getForUpdate hΓ anyError_faults _ _ _ _ trivial) fun row w4 _ _ => ?_)
    fun e _ _ _ => ?_) fun row w4 h4 _ => ?_
  · exact Look.bind hΓ (Look.acquire anyError_faults _) fun _ _ _ _ => Look.ret hΓ trivial
  · split <;> exact Look.raise hΓ trivial
  refine Body.look hΓ (look_raiseIf hΓ fun _ => trivial) fun _ w5 h5 _ => ?_
  have h05 : Still Γ w w5 := h1.trans hΓ (h2.trans hΓ (h3.trans hΓ (h4.trans hΓ h5)))
  have hpend5 : w5.sess.pend = id := h05.pend.trans hpend
  have hopen5 : w5.sess.frames ≠ [] := by
    rw [h05.frames]
    exact hopen
  split
  · exact body_auditAndRaise hA _ _ hopen5
  · split
    · exact Body.ret hΓ (trailEnd_quiet hpend5)
    · exact body_revokeGrant_trail hA hbump actor row reason now hpend5 hopen5

/-! ## The visibility of reviews -/

/-- The insert of `set_review_visibility` and its audit. -/
theorem body_decideVisibility_trail (hA : Abides p Γ) (hshow : ShowsDecisions Γ)
    (actor : Actor) {review : Nat} (kind : VisibilityKind) (reason : String) (key : Uuid)
    (latest : Option ReviewVisibilityAction) (hlock : .row .review review ∈ w.sess.held)
    (hpend : w.sess.pend = id) (hopen : w.sess.frames ≠ []) :
    Body Γ (decideVisibility actor review kind reason key latest) w
      (fun _ w' => TrailEnd w'.sess.held w'.db w'.sess.pend) anyError := by
  have hΓ := hA.lawful
  refine Body.bind (P := fun a w1 => a.record = ⟨a.pk, review, actor.pk, kind.text, reason⟩ ∧
      w1.sess.pend = addVisibilityAction a ∧ w1.sess.frames = w.sess.frames) hΓ ?_
    fun a w1 _ ⟨hrow, hp1, hf1⟩ => ?_
  · refine Body.look hΓ (look_deciding hshow) fun _ w1 h1 _ => ?_
    refine Body.look hΓ (look_clockTimestamp anyError_faults) fun createdAt w2 h2 _ => ?_
    refine Body.look hΓ (look_deciding hshow) fun _ w3 h3 _ => ?_
    refine Body.look hΓ (look_nextValue hΓ anyError_faults _ _) fun n w4 h4 _ => ?_
    have h04 : Still Γ w w4 := h1.trans hΓ (h2.trans hΓ (h3.trans hΓ h4))
    refine Body.bind hΓ (body_insertRow hΓ anyError_faults trivial fun held hsub hkeys s =>
      hA.leave _ _ _ (respects_addVisibilityAction (hkeys _ List.mem_cons_self)
        (hkeys _ (List.mem_cons_of_mem _ List.mem_cons_self)) (hsub (h04.held hlock))))
      fun _ w5 h5 hi => Body.ret hΓ ⟨rfl, ?_, ?_⟩
    · rw [hi.pend, h04.pend, hpend]
      rfl
    · rw [h5.frames, h04.frames]
  · refine body_audited hA _ ?_ (.decided a) (fun s => ?_) ?_
    · rw [hrow]
      cases kind <;> simp [AdminAudit.change, AdminAudit.number, AdminAudit.text, List.lookup_cons,
        VisibilityKind.action]
    · rw [hp1]
      exact TrailSame.refl _
    · rw [hf1]
      exact hopen

/-- **SPECIFICATION** of the transaction of `set_review_visibility`, for the trail. -/
theorem body_setReviewVisibility_trail (hA : Abides p Γ) (hop : OperationalFaults Γ)
    (hshow : ShowsDecisions Γ) (actor : Actor) (review : Nat) (kind : VisibilityKind)
    (reason : String) (key : Uuid) (at' : Option Time) (hpend : w.sess.pend = id)
    (hopen : w.sess.frames ≠ []) :
    Body Γ (setReviewVisibilityBody actor review kind reason key at') w
      (fun _ w' => TrailEnd w'.sess.held w'.db w'.sess.pend) anyError := by
  have hΓ := hA.lawful
  refine Body.look hΓ (look_visibilityTarget hA hop hpend)
    fun r w1 h1 ⟨hpk, hlock⟩ => ?_
  rw [hpk]
  refine Body.look hΓ (look_fetch anyError_faults _) fun replay w2 h2 _ => ?_
  have h02 : Still Γ w w2 := h1.trans hΓ h2
  cases replay with
  | some replay =>
      refine Body.look hΓ (look_raiseIf hΓ fun _ => trivial) fun _ w3 h3 _ => Body.ret hΓ ?_
      exact trailEnd_quiet (h3.pend.trans (h02.pend.trans hpend))
  | none =>
      refine Body.look hΓ (look_fetch anyError_faults _) fun latest w3 h3 _ => ?_
      have hpend3 : w3.sess.pend = id := h3.pend.trans (h02.pend.trans hpend)
      have hlock3 := h3.held (h2.held hlock)
      have hopen3 : w3.sess.frames ≠ [] := by
        rw [h3.frames, h02.frames]
        exact hopen
      cases latest with
      | none =>
          exact body_decideVisibility_trail hA hshow actor kind reason key _ hlock3 hpend3 hopen3
      | some latest =>
          dsimp only
          split
          · exact Body.ret hΓ (trailEnd_quiet hpend3)
          · exact body_decideVisibility_trail hA hshow actor kind reason key _ hlock3 hpend3 hopen3

end Market
