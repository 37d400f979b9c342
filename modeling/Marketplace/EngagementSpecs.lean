import Marketplace.Engagement

/-! # The transactions that change favorites

    `set_favorite` counts one product before it commits, `withdraw_account` every product
    that its user has among the favorites.  The row of the user keeps its favorites as they
    were read. -/

namespace Market

open TxnProgram TxnInterleaving TxnLogic TxnProtection TxnSoundness TxnBody TxnFrames
  TxnInvariants

variable {p : Platform} {Γ : Ctx Store Lock Exn Obs} {w w' : World Store Lock Obs}
  {s s' : Store} {held : List Lock} {n : Nat} {floor : Nat → Nat} {f g : Store → Store}

/-! ## `set_favorite` -/

/-- A commit of `set_favorite`. -/
def FavoriteEffect (user n : Nat) (active : Bool) (s s' : Store) : Prop :=
  FavoriteSet user n active s s' ∧ s'.productViews = s.productViews

/-- **SPECIFICATION** of `set_favorite`: it returns with its commit, and the product counted. -/
theorem wp_setFavorite (hE : EngagementAbides p floor Γ) (user n : Nat) (active : Bool)
    (hmay : MayCommit floor Γ (FavoriteEffect user n active)) (hi : Idle w)
    (hI : EngagementInv floor w.db) (hnone : commitsOf w.sess.hist = []) :
    wp Γ (setFavorite user n active) (fun r w' => (∀ m, r = .ok m → Counted floor n w'.db) ∧
      ∀ e ∈ commitsOf w'.sess.hist, FavoriteEffect user n active e.1 e.2) w := by
  refine wp_settled hE.abides.lawful hE.steady hi hI
    (fun w1 hpend hopen hI1 => body_setFavorite hE user n active hI1 hpend hopen)
    (fun _ w1 w2 h he => ?_) (fun e w3 _ _ hc => ⟨(fun _ h => nomatch h), fun e' hmem => ?_⟩)
    fun m w2 hI2 hc hleave hend => ?_
  · have h2 := h.near hE he.still.toNear
    rw [← he.sess] at h2
    exact h2
  · rw [hc, hnone] at hmem
    exact nomatch hmem
  · obtain ⟨hcommit, hset⟩ := hend.commit hI2
    have heffect : FavoriteEffect user n active w2.db w2.view := ⟨hset, hend.pending.views _⟩
    refine ⟨hmay _ _ _ hleave hI2 hcommit.respects (hcommit.step hI2) heffect, fun _ _ => ?_,
      fun e hmem => ?_⟩
    · obtain ⟨m', hm', hfavorites, hlow, -⟩ := hend.counted.metric
      exact ⟨m', hm', hfavorites, hlow⟩
    · rcases List.mem_cons.mp hmem with rfl | hmem
      · exact heffect
      · rw [hc, hnone] at hmem
        exact nomatch hmem

/-! ## `withdraw_account` -/

/-- A commit of `withdraw_account`: the user keeps all favorites, or none. -/
def FavoritesLeft (user : Nat) (s s' : Store) : Prop :=
  s'.productViews = s.productViews ∧ (s'.favorites = s.favorites ∨
    s'.favorites = s.favorites.filter fun r => !(r.user == user))

/-- The products whose metrics are recomputed are those of the user's favorites. -/
theorem look_favoriteProducts (hE : EngagementAbides p floor Γ) {u : User}
    (hl : .row .user u.pk ∈ w.sess.held) (hpend : w.sess.pend = id) :
    Look Γ (withdrawalScope u) w (fun scope w' =>
      scope.favoriteProducts = (favoritesBy u.pk w'.db).map (·.product)) anyError := by
  have hΓ := hE.abides.lawful
  refine Look.bind hΓ (look_fetch anyError_faults _) fun owned w1 h1 _ => ?_
  refine Look.bind hΓ (look_fetch anyError_faults _) fun traded w2 h2 _ => ?_
  refine Look.bind hΓ (look_fetch anyError_faults _) fun favorites w3 h3 hfavorites => ?_
  have h03 : Still Γ w w3 := h1.trans hΓ (h2.trans hΓ h3)
  rw [view_of_id (h03.pend.trans hpend)] at hfavorites
  refine Look.bind hΓ (look_selectForUpdate hΓ anyError_faults _ _ _ _) fun _ w4 h4 _ => ?_
  refine Look.bind hΓ (look_selectForUpdate hΓ anyError_faults _ _ _ _) fun _ w5 h5 _ => ?_
  refine Look.bind hΓ (look_raiseIf hΓ fun _ => trivial) fun _ w6 h6 _ => ?_
  have h36 : Still Γ w3 w6 := h4.trans hΓ (h5.trans hΓ h6)
  refine Look.bind hΓ (look_lockMockAccount hE.abides u.pk
    ((h03.trans hΓ h36).pend.trans hpend)) fun _ w7 h7 _ => ?_
  refine Look.bind hΓ (look_raiseIf hΓ fun _ => trivial) fun _ w8 h8 _ => ?_
  refine Look.bind hΓ (look_selectForUpdate hΓ anyError_faults _ _ _ _) fun _ w9 h9 _ => ?_
  refine Look.bind hΓ (look_selectForUpdate hΓ anyError_faults _ _ _ _) fun _ w10 h10 _ => ?_
  have h310 : Still Γ w3 w10 := h36.trans hΓ (h7.trans hΓ (h8.trans hΓ (h9.trans hΓ h10)))
  refine Look.bind hΓ (look_assertRetentionAuthoritiesAvailable hΓ) fun _ w11 h11 _ =>
    Look.ret hΓ ?_
  show favorites = _
  rw [hfavorites, hE.user (h310.trans hΓ h11).toNear (h03.held hl)]
  rfl

/-- What is counted depends on the favorites and the metric of the product only. -/
theorem Tallied.same {low : Nat} (h : Tallied n low held s f)
    (hfavorites : favoritesOf n (g s) = favoritesOf n (f s))
    (hmetrics : metricsOf n (g s) = metricsOf n (f s)) : Tallied n low held s g := by
  refine ⟨h.lock, ?_⟩
  rw [hfavorites, hmetrics]
  exact h.metric

/-- The metrics of the products have been computed, and no others. -/
structure TallyEnd (floor : Nat → Nat) (products : List Nat) (f : Store → Store)
    (held : List Lock) (s : Store) (g : Store → Store) : Prop where
  pending : Pending g
  counted : ∀ n ∈ products, Tallied n (floor n) held s g
  rest : ∀ s, MetricsOnly (f s) (g s)
  others : ∀ n, n ∉ products → ∀ s, metricsOf n (g s) = metricsOf n (f s)

/-- **LOOP** over the favorite products. -/
theorem body_recomputeMetrics (hE : EngagementAbides p floor Γ) {products : List Nat} :
    ∀ {w : World Store Lock Obs}, products.Nodup → EngagementInv floor w.db →
      Pending w.sess.pend →
      (∀ n ∈ products, ∀ s, metricsOf n (w.sess.pend s) = metricsOf n s) →
      w.sess.frames ≠ [] →
      Body Γ (recomputeMetrics products) w (fun _ w' =>
        TallyEnd floor products w.sess.pend w'.sess.held w'.db w'.sess.pend) anyError := by
  have hΓ := hE.abides.lawful
  induction products with
  | nil =>
      intro w _ _ hp _ _
      exact Body.ret hΓ ⟨hp, fun _ hn => (nomatch hn), fun _ => metricsOnly_composes.refl _,
        fun _ _ _ => rfl⟩
  | cons k products ih =>
      intro w hnodup hI hp hnew hopen
      obtain ⟨hk, hnodup⟩ := List.nodup_cons.mp hnodup
      refine Body.bind hΓ (body_recomputeProductMetric hE hI hp (hnew k List.mem_cons_self) hopen)
        fun _ w1 h1 ⟨ht, hp1, honly⟩ => ?_
      have hne : ∀ n ∈ products, n ≠ k := fun n hn he => hk (he ▸ hn)
      refine (ih hnodup (hE.inv h1.toNear hI) hp1 (fun n hn s => ?_) ?_).mono
        fun _ w2 h2 hend => ?_
      · rw [(honly s).2 n (hne n hn)]
        exact hnew n (List.mem_cons_of_mem _ hn) s
      · rw [h1.frames]
        exact hopen
      · refine ⟨hend.pending, fun n hn => ?_, fun s => ?_, fun n hn s => ?_⟩
        · rcases List.mem_cons.mp hn with rfl | hn
          · -- the products that follow are others
            have hfavorites : favoritesOf n (w2.sess.pend w2.db) =
                favoritesOf n (w1.sess.pend w2.db) := by
              rw [favoritesOf, hend.rest w2.db]
              rfl
            refine Tallied.same ?_ hfavorites (hend.others n hk w2.db)
            obtain ⟨m, hm, hcount, hlow, hrest⟩ := (ht.near hE hp1 h2.toNear).metric
            exact ⟨h2.held ht.lock, m, hm, hcount, Nat.le_trans (hI.floor n) hlow, hrest⟩
          · exact hend.counted n hn
        · exact metricsOnly_composes.trans _ _ _ (honly s).1 (hend.rest s)
        · rw [List.mem_cons, not_or] at hn
          rw [hend.others n hn.2, (honly s).2 n hn.1]

/-- What `withdraw_account` is about to commit. -/
structure LeftEnd (floor : Nat → Nat) (user : Nat) (products : List Nat) (held : List Lock)
    (s : Store) (f : Store → Store) : Prop where
  lock : .row .user user ∈ held
  pending : Pending f
  scope : products = (favoritesBy user s).map (·.product)
  counted : ∀ n ∈ products, Tallied n (floor n) held s f
  metrics : ∀ n, n ∉ products → ∀ s', metricsOf n (f s') = metricsOf n s'
  favorites : ∀ s', (f s').favorites =
    (removeFavorites ((favoritesBy user s).map (·.pk)) s').favorites

variable {user : Nat} {products : List Nat}

theorem LeftEnd.near (hE : EngagementAbides p floor Γ)
    (h : LeftEnd floor user products w.sess.held w.db f) (hn : Near Γ w w') :
    LeftEnd floor user products w'.sess.held w'.db f := by
  have hsame := hE.user hn h.lock
  refine ⟨hn.held h.lock, h.pending, ?_, fun n hmem => (h.counted n hmem).near hE h.pending hn,
    h.metrics, ?_⟩
  · rw [hsame]
    exact h.scope
  · rw [hsame]
    exact h.favorites

theorem LeftEnd.same (h : LeftEnd floor user products held s f)
    (hsame : ∀ s, EngagementSame (f s) (g s)) : LeftEnd floor user products held s g where
  lock := h.lock
  pending := EngagementSame.pending hsame h.pending
  scope := h.scope
  counted n hn := (h.counted n hn).same (hsame s).favoritesOf (hsame s).metricsOf
  metrics n hn s' := (hsame s').metricsOf.trans (h.metrics n hn s')
  favorites s' := (hsame s').1.trans (h.favorites s')

/-- **COMMIT** of a withdrawal. -/
theorem LeftEnd.commit (h : LeftEnd floor user products held s f) (hI : EngagementInv floor s) :
    EngagementEnd floor products held s f ∧ FavoritesLeft user s (f s) := by
  have hleft : (f s).favorites = s.favorites.filter fun r => !(r.user == user) :=
    (h.favorites s).trans (removeFavorites_eq hI.favoriteKeys _)
  refine ⟨⟨h.pending, h.counted, fun n hn => h.metrics n hn s, ?_⟩, h.pending.views s, Or.inr hleft⟩
  refine .removed user (fun r => r.user == user) h.lock (fun r hr => beq_iff_eq.mp hr)
    (fun r hr hu => ?_) hleft
  rw [h.scope]
  exact List.mem_map_of_mem (List.mem_filter.mpr ⟨hr, hu⟩)

theorem engagementSame_updateProducts (pks : List Nat) (k : Product → Product) (s : Store) :
    EngagementSame s (updateProducts pks k s) := ⟨rfl, rfl, rfl⟩

/-- The kinds of writes of a withdrawal that are none to favorites, views or metrics. -/
theorem engagementSame_licensed {k : WriteKind}
    (hk : k ∈ [WriteKind.notifications, .closing, .transferAudit, .withdrawal, .task])
    {held : List Lock} {f : Store → Store} (h : Licensed held k f) (s : Store) :
    EngagementSame s (f s) := by
  cases h with
  | notifications pks => exact ⟨rfl, rfl, rfl⟩
  | closing n now => exact ⟨rfl, rfl, rfl⟩
  | transferAudit a => exact ⟨rfl, rfl, rfl⟩
  | withdrawal u now => exact ⟨rfl, rfl, rfl⟩
  | task t => exact ⟨rfl, rfl, rfl⟩
  | _ => exact absurd hk (by decide)

/-- A part of the withdrawal that leaves favorites and metrics alone. -/
theorem LeftEnd.body {α : Type} (hE : EngagementAbides p floor Γ)
    (h : LeftEnd floor user products w.sess.held w.db w.sess.pend) {m : M α} (ls : List Lock)
    (ks : List WriteKind)
    (hks : ks ⊆ [WriteKind.notifications, .closing, .transferAudit, .withdrawal, .task])
    (hm : ∀ Γ', Lawful Γ' → PermitsAll Γ' ks → Safe Γ' ls m) (hopen : w.sess.frames ≠ [])
    (hheld : ∀ l ∈ ls, l ∈ w.sess.held) :
    Body Γ m w (fun _ w' => LeftEnd floor user products w'.sess.held w'.db w'.sess.pend)
      anyError :=
  (body_keeps hE.abides.lawful (hE.abides.permits ks) engagementSame_composes
    (fun _ hk _ _ hf s => engagementSame_licensed (hks hk) hf s) hm hopen hheld).mono
    fun _ _ hw hsame => (h.near hE hw.toNear).same hsame

/-- **SPECIFICATION** of what the user leaves behind. -/
theorem body_clearHoldings_counts (hE : EngagementAbides p floor Γ) {u : User}
    {scope : WithdrawalScope} (now : Time)
    (hscope : scope.favoriteProducts = (favoritesBy u.pk w.db).map (·.product))
    (hl : .row .user u.pk ∈ w.sess.held) (hI : EngagementInv floor w.db)
    (hpend : w.sess.pend = id) (hopen : w.sess.frames ≠ []) :
    Body Γ (clearHoldings u scope now) w (fun _ w' =>
      LeftEnd floor u.pk scope.favoriteProducts w'.sess.held w'.db w'.sess.pend) anyError := by
  have hΓ := hE.abides.lawful
  refine Body.bind hΓ (body_archiveAvailable hE.abides u scope now) fun _ w1 h1 hp1 => ?_
  rw [hpend] at hp1
  have hsame1 : ∀ s, EngagementSame s (w1.sess.pend s) := fun s => by
    rw [hp1]
    exact engagementSame_updateProducts _ _ s
  have hl1 : .row .user u.pk ∈ w1.sess.held := h1.held hl
  refine Body.bind hΓ (body_removeFavorites hE (fun r hr => beq_iff_eq.mp hr) hl1
    fun s => (hsame1 s).1) fun _ w2 h2 hp2 => ?_
  have hI2 : EngagementInv floor w2.db := hE.inv (h1.toNear.trans hΓ h2.toNear) hI
  have hl2 : .row .user u.pk ∈ w2.sess.held := h2.held hl1
  have hmem : ∀ n, n ∈ scope.favoriteProducts.dedup.insertionSort (· ≤ ·) ↔
      n ∈ scope.favoriteProducts := fun n => by
    rw [List.mem_insertionSort, List.mem_dedup]
  have hmetrics : ∀ n s, metricsOf n (w2.sess.pend s) = metricsOf n s := fun n s => by
    rw [hp2]
    exact (hsame1 s).metricsOf
  have hp2' : Pending w2.sess.pend := by
    rw [hp2]
    exact (pending_removeFavorites _).comp (EngagementSame.pending hsame1 Pending.id)
  refine Body.bind hΓ (body_recomputeMetrics hE
    ((List.perm_insertionSort _ _).nodup_iff.mpr (List.nodup_dedup _)) hI2 hp2'
    (fun n _ => hmetrics n) ?_) fun _ w3 h3 hend => ?_
  · rw [h2.frames, h1.frames]
    exact hopen
  have hl3 : .row .user u.pk ∈ w3.sess.held := h3.held hl2
  have hnear : Near Γ w w3 := h1.toNear.trans hΓ (h2.toNear.trans hΓ h3.toNear)
  have hleft : LeftEnd floor u.pk scope.favoriteProducts w3.sess.held w3.db w3.sess.pend := by
    refine ⟨hl3, hend.pending, ?_, fun n hn => hend.counted n ((hmem n).mpr hn),
      fun n hn s' => ?_, fun s' => ?_⟩
    · rw [hE.user hnear hl]
      exact hscope
    · rw [hend.others n (fun h => hn ((hmem n).mp h)), hmetrics]
    · rw [hend.rest s', hp2]
      show (removeFavorites ((favoritesBy u.pk w2.db).map (·.pk)) (w1.sess.pend s')).favorites = _
      rw [hE.user h3.toNear hl2]
      show (w1.sess.pend s').favorites.filter _ = _
      rw [(hsame1 s').1]
      rfl
  refine hleft.body hE [] [.notifications] (by decide)
    (fun _ hΓ' hp => safe_deleteRows hΓ' fun found held s => ?_) ?_ no_locks
  · exact hp .notifications (by decide) held _ (.notifications found) s
  · rw [h3.frames, h2.frames, h1.frames]
    exact hopen

/-- **SPECIFICATION** of `withdraw_account`, up to its commit: a withdrawal that is replayed
    writes nothing. -/
theorem body_withdrawAccount_counts (hE : EngagementAbides p floor Γ) (user : Nat)
    (password : String) (hpend : w.sess.pend = id) (hopen : w.sess.frames ≠ [])
    (hI : EngagementInv floor w.db) :
    Body Γ (withdrawAccountBody user password) w (fun _ w' => w'.sess.pend = id ∨
      ∃ products, LeftEnd floor user products w'.sess.held w'.db w'.sess.pend) anyError := by
  have hΓ := hE.abides.lawful
  refine Body.look hΓ (look_getForUpdate hΓ anyError_faults _ _ _ _ trivial)
    fun u w1 h1 ⟨_, huser, hlock⟩ => ?_
  rw [beq_iff_eq] at huser
  have hpend1 : w1.sess.pend = id := h1.pend.trans hpend
  split
  · refine Body.look hΓ (look_getRow hΓ anyError_faults _ _ trivial)
      fun task w2 h2 _ => Body.ret hΓ (Or.inl (h2.pend.trans hpend1))
  · refine Body.look hΓ (look_raiseIf hΓ fun _ => trivial) fun _ w2 h2 _ => ?_
    refine Body.look hΓ (look_favoriteProducts hE (h2.held hlock) (h2.pend.trans hpend1))
      fun scope w3 h3 hscope => ?_
    refine Body.look hΓ (look_currentTimestamp anyError_faults) fun now w4 h4 _ => ?_
    have h14 : Still Γ w1 w4 := h2.trans hΓ (h3.trans hΓ h4)
    have hlock3 : .row .user u.pk ∈ w3.sess.held := h3.held (h2.held hlock)
    have hI4 : EngagementInv floor w4.db := hE.inv (h1.trans hΓ h14).toNear hI
    rw [← hE.user h4.toNear hlock3] at hscope
    have hopen4 : w4.sess.frames ≠ [] := by
      rw [h14.frames, h1.frames]
      exact hopen
    refine Body.bind hΓ (body_clearHoldings_counts hE now hscope (h14.held hlock) hI4
      (h14.pend.trans hpend1) hopen4) fun _ w5 h5 hleft => ?_
    rw [huser] at hleft
    refine (hleft.body hE [.row .user u.pk]
      [.closing, .transferAudit, .withdrawal, .task] (by decide) (fun Γ' hΓ' hp => ?_) ?_
      fun l hl => ?_).mono fun _ _ _ h => Or.inr ⟨_, h⟩
    · refine Safe.bind hΓ' (safe_closeWithdrawnAccount hΓ' (hp.sub (by decide)) _ _ _) fun _ =>
        Safe.bind hΓ' (safe_updateRows hΓ' fun held hlocks s => ?_) fun _ =>
        Safe.bind hΓ' (safe_revocationTask hΓ' (hp.sub (by decide)) List.mem_cons_self _)
          fun _ => Safe.ret hΓ' _
      exact hp .withdrawal (by decide) held _ (.withdrawal _ _ (hlocks _ List.mem_cons_self)) s
    · rw [h5.frames]
      exact hopen4
    · rw [List.mem_singleton.mp hl]
      exact h5.held (h14.held hlock)

theorem engagementStep_refl (hI : EngagementInv floor s) : EngagementStep floor s s :=
  ⟨hI, List.prefix_rfl, fun _ => .same rfl rfl⟩

/-- **SPECIFICATION** of `withdraw_account`: what it commits is counted. -/
theorem wp_withdrawAccount_counts (hE : EngagementAbides p floor Γ) (user : Nat)
    (password : String) (hmay : MayCommit floor Γ (FavoritesLeft user)) (hi : Idle w)
    (hI : EngagementInv floor w.db) :
    wp Γ (withdrawAccount user password) (fun _ _ => True) w := by
  refine wp_tryCatch (wp_settled hE.abides.lawful hE.steady hi hI
    (fun w1 hpend hopen hI1 => body_withdrawAccount_counts hE user password hpend hopen hI1)
    (fun _ w1 w2 h he => ?_) (fun e w3 _ _ _ => ?_) fun r w2 hI2 _ hleave hend => ⟨?_, trivial⟩)
  · rcases h with h | ⟨products, h⟩
    · left
      rw [he.sess]
      exact h
    · have h2 := h.near hE he.still.toNear
      rw [← he.sess] at h2
      exact Or.inr ⟨products, h2⟩
  · show wp Γ _ _ w3
    split <;> trivial
  · rcases hend with hpend | ⟨products, hend⟩
    · rw [view_of_id hpend] at hleave ⊢
      refine hmay _ _ _ hleave hI2 (engagementRespects_of List.prefix_rfl (fun _ _ => rfl)
        fun _ _ => ⟨rfl, rfl⟩) (engagementStep_refl hI2) ⟨rfl, Or.inl rfl⟩
    · obtain ⟨hcommit, hleft⟩ := hend.commit hI2
      exact hmay _ _ _ hleave hI2 hcommit.respects (hcommit.step hI2) hleft

end Market
