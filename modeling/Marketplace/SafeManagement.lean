import Marketplace.SafePrograms

/-! # Licensed writes of the staff's and the users' requests

    The rest of the services: thresholds, sanctions, releases and scopes, the session
    index, and the wrappers that run one transaction after the other. -/

namespace Market

open TxnProgram TxnLogic TxnBody TxnFrames

variable {Γ : Ctx Store Lock Exn Obs} {ls : List Lock} {α : Type}

/-! ## Thresholds -/

/-- The status of a user is read with a query. -/
theorem look_effectiveUserStatus (hΓ : Lawful Γ) {F : Exn → Prop} (hF : Faults Γ F) (user : Nat)
    (w : World Store Lock Obs) : Look Γ (effectiveUserStatus user) w (fun _ _ => True) F :=
  Look.bind hΓ (look_fetchNow hF _) fun _ _ _ _ => Look.ret hΓ trivial

/-- So is the visibility of a product. -/
theorem look_effectiveProductVisibility (hΓ : Lawful Γ) {F : Exn → Prop} (hF : Faults Γ F)
    (product : Nat) (w : World Store Lock Obs) :
    Look Γ (effectiveProductVisibility product) w (fun _ _ => True) F :=
  Look.bind hΓ (look_fetch hF _) fun _ _ _ _ =>
    Look.bind hΓ (look_fetchNow hF _) fun _ _ _ _ => Look.ret hΓ trivial

/-- Whatever it answers, the target is locked. -/
theorem look_lockTarget (hΓ : Lawful Γ) (targetType : TargetType) (target : Nat)
    (w : World Store Lock Obs) :
    Look Γ (lockTarget targetType target) w
      (fun _ w' => targetLock targetType target ∈ w'.sess.held) anyError := by
  have hproduct : ∀ (tt : TargetType) (handler : Exn → M Product),
      (∀ e w1, Look Γ (handler e) w1 (fun _ w2 => .row .product target ∈ w2.sess.held) anyError) →
      Look Γ (do
        let product ← Prog.tryCatch
          (getForUpdate .product (·.products) (·.pk) fun r =>
            r.pk == target && r.archivedAt.isNone) handler
        if tt == .product then do
          let visibility ← effectiveProductVisibility product.pk
          return visibility == .visible
        else return true) w (fun _ w' => .row .product target ∈ w'.sess.held) anyError := by
    intro tt handler hraises
    refine Look.bind (P := fun _ w1 => .row .product target ∈ w1.sess.held) hΓ
      (Look.tryCatch (G := anyError) hΓ ((look_getForUpdate hΓ anyError_faults _ _ _ _
        trivial).mono fun r w1 _ ⟨_, hp, hl⟩ => ?_) fun e w1 _ _ => hraises e w1)
      fun product w1 _ hlock => ?_
    · rw [Bool.and_eq_true, beq_iff_eq] at hp
      rw [hp.1] at hl
      exact hl
    · split
      · exact Look.bind hΓ (look_effectiveProductVisibility hΓ anyError_faults _ _) fun _ w2 h2 _ =>
          Look.ret hΓ (h2.held hlock)
      · exact Look.ret hΓ hlock
  cases targetType with
  | user =>
      refine Look.bind (P := fun _ w1 => .row .user target ∈ w1.sess.held) hΓ
        (Look.tryCatch (G := anyError) hΓ ((look_getForUpdate hΓ anyError_faults _ _ _ _
          trivial).mono fun u w1 _ ⟨_, hp, hl⟩ => ?_) fun e w1 _ _ => ?_)
        fun user w1 _ hlock => ?_
      · rw [eq_of_beq hp] at hl
        exact hl
      · split <;> exact Look.raise hΓ trivial
      · split
        · exact Look.ret hΓ hlock
        · exact Look.bind hΓ (look_effectiveUserStatus hΓ anyError_faults _ _) fun _ w2 h2 _ =>
            Look.ret hΓ (h2.held hlock)
  | product =>
      refine hproduct .product _ fun e w1 => ?_
      split <;> exact Look.raise hΓ trivial
  | review =>
      refine hproduct .review _ fun e w1 => ?_
      split <;> exact Look.raise hΓ trivial

/-- The policy writes within its catalogue. -/
theorem safe_evaluateThresholdBody (hΓ : Lawful Γ) (h : PermitsAll Γ sanctionWrites)
    (hshow : ShowsMarks Γ) (targetType : TargetType) (target : Nat) :
    Safe Γ ls (evaluateThresholdBody targetType target) := by
  refine Safe.bindLocked (P := fun _ => True) hΓ (fun _ => [targetLock targetType target])
    (fun w => (look_lockTarget hΓ targetType target w).mono
      fun _ _ _ hw => ⟨trivial, fun l hl => ?_⟩) fun standing _ => ?_
  · rw [List.mem_singleton.mp hl]
    exact hw
  · cases standing with
    | false => exact Safe.ret hΓ _
    | true =>
        exact Safe.bind hΓ (Safe.select hΓ _) fun now =>
          safe_evaluateLocked hΓ h hshow List.mem_cons_self _ _

/-! ## Sanctions by staff -/

/-- An audit row is one insert. -/
theorem safe_audit (hΓ : Lawful Γ) (h : PermitsAll Γ [.adminAudit]) (a : AdminAudit) :
    Safe Γ ls (audit a) :=
  Safe.tryCatch hΓ (Safe.atomic hΓ (safe_insertRow hΓ fun held _ _ s =>
    h .adminAudit (by decide) held _ (.adminAudit a) s)) fun _ => Safe.raise hΓ _

/-- A check of two times. -/
theorem safe_requireReauthentication (hΓ : Lawful Γ) (at' : Option Time) (now : Time) :
    Safe Γ ls (requireReauthentication at' now) := by
  cases at' with
  | none => exact Safe.raise hΓ _
  | some t => exact Safe.raiseIf hΓ _ _

/-- The grant is looked up. -/
theorem safe_requireScope (hΓ : Lawful Γ) (actor : Actor) (codename : String)
    (targetType : TargetType) (target : Nat) :
    Safe Γ ls (requireScope actor codename targetType target) := by
  refine Safe.bind hΓ (Safe.raiseIf hΓ _ _) fun _ => Safe.bind hΓ (safe_fetch hΓ _)
    fun grant => ?_
  cases grant with
  | none => exact Safe.raise hΓ _
  | some grant => exact Safe.ret hΓ _

/-- The lock of the target is held afterwards. -/
theorem look_lockSanctionTarget (hΓ : Lawful Γ) (targetType : TargetType) (target : Nat)
    (w : World Store Lock Obs) :
    Look Γ (lockSanctionTarget targetType target) w
      (fun _ w' => targetLock targetType target ∈ w'.sess.held) anyError := by
  refine Look.tryCatch (G := anyError) hΓ ?_ fun e w1 _ _ => ?_
  · have hproduct : Look Γ (do
        let product ← getForUpdate .product (·.products) (·.pk) (·.pk == target)
        return product.version) w
        (fun _ w' => .row .product target ∈ w'.sess.held) anyError :=
      Look.bind hΓ (look_getForUpdate hΓ anyError_faults _ _ _ _ trivial)
        fun r w1 _ ⟨_, hp, hl⟩ => Look.ret hΓ (by rw [eq_of_beq hp] at hl; exact hl)
    cases targetType with
    | user =>
        exact Look.bind hΓ (look_getForUpdate hΓ anyError_faults _ _ _ _ trivial)
          fun r w1 _ ⟨_, hp, hl⟩ => Look.ret hΓ (by rw [eq_of_beq hp] at hl; exact hl)
    | product => exact hproduct
    | review => exact hproduct
  · split <;> exact Look.raise hΓ trivial

/-- A sanction is inserted under the lock of its target. -/
theorem safe_sanctionTarget (hΓ : Lawful Γ) (h : PermitsAll Γ [.action, .adminAudit])
    (hshow : ShowsMarks Γ) {targetType : TargetType} {target : Nat}
    (hlock : targetLock targetType target ∈ ls) (actor : Actor) (reason : String)
    (now : Time) (before : JsonObject) :
    Safe Γ ls (sanctionTarget actor targetType target reason now before) :=
  Safe.bind hΓ (safe_mark hΓ hshow _ fun _ _ _ _ hv => nomatch hv) fun _ =>
    Safe.bind hΓ (safe_createAction hΓ (h.sub (by decide)) hlock _) fun _ =>
      Safe.bind hΓ (safe_audit hΓ (h.sub (by decide)) _) fun _ => Safe.ret hΓ _

/-- The transaction of `apply_sanction`. -/
theorem safe_applySanctionBody (hΓ : Lawful Γ) (h : PermitsAll Γ [.action, .adminAudit])
    (hshow : ShowsMarks Γ) (actor : Actor) (targetType : TargetType) (target : Nat)
    (reason : String) (version : Int) (at' : Option Time) :
    Safe Γ ls (applySanctionBody actor targetType target reason version at') := by
  refine Safe.bind hΓ (Safe.select hΓ _) fun now =>
    Safe.bind hΓ (safe_requireReauthentication hΓ _ _) fun _ => ?_
  refine Safe.bindLocked (P := fun _ => True) hΓ (fun _ => [targetLock targetType target])
    (fun w => (look_lockSanctionTarget hΓ targetType target w).mono
      fun _ _ _ hw => ⟨trivial, fun l hl => ?_⟩) fun current _ => ?_
  · rw [List.mem_singleton.mp hl]
    exact hw
  · refine Safe.bind hΓ (safe_requireScope hΓ _ _ _ _) fun _ => ?_
    dsimp only
    split
    · exact Safe.bind hΓ (safe_audit hΓ (h.sub (by decide)) _) fun _ => Safe.raise hΓ _
    · refine Safe.bind hΓ (safe_fetch hΓ _) fun active => ?_
      cases active with
      | some action => exact Safe.ret hΓ _
      | none => exact safe_sanctionTarget hΓ h hshow List.mem_cons_self _ _ _ _

/-- A release is inserted under the lock of its action. -/
theorem safe_releaseAction (hΓ : Lawful Γ) (h : PermitsAll Γ [.release, .adminAudit])
    (actor : Actor) {action : ModerationAction} (hlock : .row .action action.pk ∈ ls)
    (reason : String) (before : JsonObject) :
    Safe Γ ls (releaseAction actor action reason before) := by
  refine Safe.bind hΓ (safe_insertRow hΓ fun held hheld hkeys s => ?_) fun _ =>
    Safe.bind hΓ (safe_audit hΓ (h.sub (by decide)) _) fun _ => Safe.ret hΓ _
  exact h .release (by decide) held _
    (.release _ (hkeys _ List.mem_cons_self) (hheld _ hlock)) s

/-- The transaction of `release_sanction`. -/
theorem safe_releaseSanctionBody (hΓ : Lawful Γ) (h : PermitsAll Γ [.release, .adminAudit])
    (actor : Actor) (sanction : Nat) (reason : String) (version : Int)
    (at' : Option Time) :
    Safe Γ ls (releaseSanctionBody actor sanction reason version at') := by
  refine Safe.bind hΓ (Safe.select hΓ _) fun now =>
    Safe.bind hΓ (safe_requireReauthentication hΓ _ _) fun _ => ?_
  refine Safe.bindLocked (P := fun _ => True) hΓ
    (fun a : ModerationAction => [.row .action a.pk]) (fun w => ?_) fun action _ => ?_
  · refine Look.tryCatch (G := anyError) hΓ ((look_getForUpdate hΓ anyError_faults _ _ _ _
      trivial).mono fun a w1 _ ⟨_, _, hl⟩ => ⟨trivial, fun l hm => ?_⟩) fun e w1 _ _ => ?_
    · rw [List.mem_singleton.mp hm]
      exact hl
    · split <;> exact Look.raise hΓ trivial
  · have haudit : ∀ a : AdminAudit, ∀ e : Exn, Safe Γ ([.row .action action.pk] ++ ls)
        (do audit a; raise e : M (ManagementResult SanctionRelease)) := fun a e =>
      Safe.bind hΓ (safe_audit hΓ (h.sub (by decide)) a) fun _ => Safe.raise hΓ e
    refine Safe.bind hΓ (safe_requireScope hΓ _ _ _ _) fun _ => ?_
    dsimp only
    split
    · exact haudit _ _
    · refine Safe.bind hΓ (safe_fetch hΓ _) fun existing => ?_
      cases existing with
      | some r => exact Safe.ret hΓ _
      | none =>
          dsimp only
          split
          · exact haudit _ _
          · exact safe_releaseAction hΓ h _ List.mem_cons_self _ _

/-- The transaction of `revoke_scope`. -/
theorem safe_revokeScopeBody (hΓ : Lawful Γ)
    (h : PermitsAll Γ [.grant, .bump, .adminAudit]) (hshow : ShowsMarks Γ) (actor : Actor)
    (grant : Nat)
    (reason : String) (version : Int) (at' : Option Time) :
    Safe Γ ls (revokeScopeBody actor grant reason version at') := by
  refine Safe.bind hΓ (Safe.select hΓ _) fun now =>
    Safe.bind hΓ (safe_requireReauthentication hΓ _ _) fun _ =>
      Safe.bind hΓ (Safe.raiseIf hΓ _ _) fun _ => ?_
  refine Safe.bind hΓ (Safe.tryCatch hΓ (Safe.bind hΓ (safe_getForUpdate hΓ _ _ _ _)
    fun _ => Safe.bind hΓ (Safe.acquire hΓ _) fun _ => Safe.ret hΓ _) fun e => ?_)
    fun row => Safe.bind hΓ (Safe.raiseIf hΓ _ _) fun _ => ?_
  · split <;> exact Safe.raise hΓ _
  · split
    · exact Safe.bind hΓ (safe_audit hΓ (h.sub (by decide)) _) fun _ => Safe.raise hΓ _
    · split
      · exact Safe.ret hΓ _
      · refine Safe.bind hΓ (safe_updateRows hΓ fun held hlocks s => ?_) fun _ =>
          Safe.bind hΓ (safe_mark hΓ hshow _ fun _ _ _ _ hv => nomatch hv) fun _ =>
            Safe.bind hΓ (safe_updateRows hΓ fun held hlocks s => ?_) fun _ =>
              Safe.bind hΓ (safe_getRow hΓ _ _) fun _ =>
                Safe.bind hΓ (safe_audit hΓ (h.sub (by decide)) _) fun _ => Safe.ret hΓ _
        · exact h .grant (by decide) held _
            (.grant _ (fun g => { g with
                revokedAt := some now, revokedBy := some actor.pk, version := g.version + 1 })
              (hlocks _ List.mem_cons_self) fun _ => ⟨rfl, rfl⟩) s
        · exact h .bump (by decide) held _ (.bump _ (hlocks _ List.mem_cons_self)) s

/-! ## One transaction after the other -/

/-- Transactions that make no other writes than those of the kinds may be run. -/
def MayRun (Γ : Ctx Store Lock Exn Obs) (ks : List WriteKind) : Prop :=
  ∀ {β : Type} (m : M β),
    (∀ Γ', Lawful Γ' → PermitsAll Γ' ks → ShowsMarks Γ' → Safe Γ' [] m) →
      Top Γ (atomic m)

/-- The kinds are permitted, and what they keep is enough for a commit. -/
theorem mayRun_of_frame (hΓ : Lawful Γ) (hshow : ShowsMarks Γ) {ks : List WriteKind}
    (h : PermitsAll Γ ks) {W : Store → Store → Prop} (hW : Composes W)
    (hkeep : ∀ k ∈ ks, ∀ held f, Licensed held k f → ∀ s, W s (f s))
    (hguar : ∀ held s s', Γ.leave held s s' → W s s' → Γ.guar held s s') :
    MayRun Γ ks := by
  intro β m hm
  refine Top.atomicFramed hΓ (hm Γ hΓ h hshow) (hm _ (frame_lawful _ hW) ?_ ?_) hguar
  · exact fun k hk held f hf s => hkeep k hk held f hf s
  · exact fun _ _ _ _ _ => trivial

/-- Who may run more kinds of writes may run fewer. -/
theorem MayRun.sub {ks ks' : List WriteKind} (h : MayRun Γ ks') (hsub : ks ⊆ ks') :
    MayRun Γ ks :=
  fun m hm => h m fun Γ' hΓ' hp hs => hm Γ' hΓ' (hp.sub hsub) hs

/-- An audit in a transaction of its own. -/
theorem top_audit (h : MayRun Γ [.adminAudit]) (a : AdminAudit) : Top Γ (audit a) :=
  Top.tryCatch (h _ fun _ hΓ' hp _ => safe_insertRow hΓ' fun held _ _ s =>
    hp .adminAudit (by decide) held _ (.adminAudit a) s) fun _ => Top.raise _

/-- A refusal is audited and raised again. -/
theorem top_refused {a : AdminAudit} (h : ∀ a, Top Γ (audit a)) (e : Exn) :
    Top Γ (do audit a; raise e : M α) := Top.bind (h a) fun _ => Top.raise e

/-- `submit_report` is one transaction after a check of its reason. -/
theorem top_submitReport {reporter : Nat} {targetType : TargetType} {target : Nat}
    {context : ReportContext}
    (h : ∀ reason, Top Γ (atomic (submitReportBody reporter targetType target context reason)))
    (reason : String) : Top Γ (submitReport reporter targetType target context reason) := by
  rw [submitReport]
  split
  · exact Top.raise _
  · refine Top.bind (Top.ofAnswer _) fun normalized => Top.tryCatch (h _) fun e => ?_
    split <;> exact Top.raise _

/-- `apply_sanction`: the transaction, and the audit of what refused it. -/
theorem top_applySanction {p : Platform} {actor : Actor} {targetType : TargetType}
    {target : Nat} {version : Int} {at' : Option Time}
    (h : ∀ reason,
      Top Γ (atomic (applySanctionBody actor targetType target reason version at')))
    (haudit : ∀ a, Top Γ (audit a)) (reason : String) :
    Top Γ (applySanction p actor targetType target reason version at') := by
  refine Top.bind (Top.ofAnswer _) fun normalized => Top.tryCatch
    (Top.bind (Top.ofAnswer _) fun _ => Top.bind (Top.raiseIf _ _) fun _ => h _) fun e => ?_
  split
  · exact top_refused haudit _
  · exact top_refused haudit _
  · exact top_refused haudit _
  · exact Top.raise _

/-- `release_sanction`, in the same way. -/
theorem top_releaseSanction {p : Platform} {actor : Actor} {sanction : Nat} {version : Int}
    {at' : Option Time}
    (h : ∀ reason, Top Γ (atomic (releaseSanctionBody actor sanction reason version at')))
    (haudit : ∀ a, Top Γ (audit a)) (reason : String) :
    Top Γ (releaseSanction p actor sanction reason version at') := by
  have htarget : Top Γ (releaseTarget sanction) :=
    Top.bind (Top.select _) fun _ => Top.ret _
  refine Top.bind (Top.ofAnswer _) fun normalized => Top.tryCatch
    (Top.bind (Top.ofAnswer _) fun _ => h _) fun e => ?_
  split
  · exact Top.bind htarget fun _ => top_refused haudit _
  · exact Top.bind htarget fun _ => top_refused haudit _
  · exact Top.bind htarget fun _ => top_refused haudit _
  · exact Top.raise _

/-- `revoke_scope`, in the same way. -/
theorem top_revokeScope {p : Platform} {actor : Actor} {grant : Nat} {version : Int}
    {at' : Option Time}
    (h : ∀ reason, Top Γ (atomic (revokeScopeBody actor grant reason version at')))
    (haudit : ∀ a, Top Γ (audit a)) (reason : String) :
    Top Γ (revokeScope p actor grant reason version at') := by
  have htarget : Top Γ (revokeTarget grant) :=
    Top.bind (Top.select _) fun _ => Top.ret _
  refine Top.bind (Top.ofAnswer _) fun normalized => Top.tryCatch
    (Top.bind (Top.ofAnswer _) fun _ => h _) fun e => ?_
  split
  · exact Top.bind htarget fun _ => top_refused haudit _
  · exact Top.bind htarget fun _ => top_refused haudit _
  · exact Top.bind htarget fun _ => top_refused haudit _
  · exact Top.raise _

/-- `withdraw_account` translates what its transaction raises. -/
theorem top_withdrawAccount {user : Nat} {password : String}
    (h : Top Γ (atomic (withdrawAccountBody user password))) :
    Top Γ (withdrawAccount user password) := by
  refine Top.tryCatch h fun e => ?_
  split <;> exact Top.raise _

/-- `product_delete` reads the product first. -/
theorem top_productDelete {user product : Nat} {version : Int}
    (h : Top Γ (atomic (productDeleteBody user product version))) :
    Top Γ (productDelete user product version) := by
  refine Top.bind (Top.select _) fun shown => ?_
  cases shown with
  | none => exact Top.raise _
  | some r => exact h

/-! ## The session index -/

/-- The kinds of writes of a session that is ended or started, and of the epoch. -/
def sessionWrites : List WriteKind := [.sessions, .newSession, .bump]

/-- A session row is deleted by key. -/
theorem top_sessionEnd (h : MayRun Γ sessionWrites) (key : String) :
    Top Γ (sessionEnd key) :=
  Top.bind Top.fresh fun now => h _ fun _ hΓ' hp _ =>
    Safe.bind hΓ' (safe_fetch hΓ' _) fun rows => safe_updateRows hΓ' fun held _ s =>
      hp .sessions (by decide) held _
        (.sessions rows (fun r => { r with revokedAt := some now }) fun _ => ⟨rfl, rfl⟩) s

/-- The row of the session is written or inserted. -/
theorem top_reindexSession (h : MayRun Γ sessionWrites) (user : User) (now : Time)
    (row : UserSessionIndex) : Top Γ (reindexSession user now row) := by
  refine Top.bind (Top.raiseIf _ _) fun _ => Top.bind (Top.raiseIf _ _) fun _ => ?_
  split
  · refine Top.bind (h _ fun _ hΓ' hp _ => safe_updateRows hΓ' fun held _ s => ?_)
      fun _ => Top.ret _
    exact hp .sessions (by decide) held _ (.sessions [row.pk]
      (fun r => { r with authEpoch := user.authEpoch, lastSeenAt := now })
      fun _ => ⟨rfl, rfl⟩) s
  · exact Top.ret _

/-- A login indexes its session. -/
theorem top_sessionStart (h : MayRun Γ sessionWrites) (user : User) (key : String) :
    Top Γ (sessionStart user key) := by
  refine Top.bind Top.fresh fun now => Top.bind (h _ fun _ hΓ' hp _ => ?_)
    fun ⟨row, created⟩ => ?_
  · refine safe_getOrCreate hΓ' (fun w => look_true (look_fetch anyError_faults _))
      (Safe.bind hΓ' (Safe.fresh hΓ') fun n => Safe.bind hΓ' (safe_insertRow hΓ'
        fun held _ hkeys s => ?_) fun _ => Safe.ret hΓ' _)
    exact hp .newSession (by decide) held _ (.newSession _ (hkeys _ List.mem_cons_self)
      (hkeys _ (List.mem_cons_of_mem _ List.mem_cons_self))) s
  · cases created with
    | true => exact Top.ret _
    | false => exact top_reindexSession h _ _ _

/-- A changed password moves the session to a new key. -/
theorem top_rotateAfterPasswordChange (h : MayRun Γ sessionWrites) (r : Request)
    (user : User) : Top Γ (rotateAfterPasswordChange r user) := by
  refine Top.bind (top_sessionEnd h _) fun _ => Top.bind (h _ fun _ hΓ' hp _ =>
    safe_updateRows hΓ' fun held hlocks s => ?_) fun _ => ?_
  · exact hp .bump (by decide) held _ (.bump _ (hlocks _ List.mem_cons_self)) s
  · refine Top.bind (Top.bind (Top.select _) fun stored => ?_) fun stored =>
      Top.bind Top.fresh fun _ => top_sessionStart h _ _
    cases stored with
    | none => exact Top.raise _
    | some u => exact Top.ret _

end Market
