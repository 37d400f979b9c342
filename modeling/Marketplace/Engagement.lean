import Mathlib.Data.List.Nodup
import Marketplace.GallerySpecs
import Marketplace.WithdrawalSpecs

/-! # Favorites, views and their counts

    `record_product_view` of `catalog/engagement.py`, and what the services of that file
    make of the counts of a product.  The counts are computed anew under the lock of the
    row of the product, which also protects its favorites and its metric; a view is
    inserted before that and outside of it. -/

namespace Market

open TxnProgram TxnInterleaving TxnLogic TxnProtection TxnSoundness TxnBody TxnFrames
  TxnInvariants

/-! ## Views -/

def addProductView (r : ProductView) (s : Store) : Store :=
  { s with productViews := s.productViews ++ [r] }

/-- What `record_product_view` reads of a request: the user if one is logged in, and the
    key of the session if it has one. -/
structure Visitor where
  user : Option Nat := none
  sessionKey : Option String := none

/-- `request.session.session_key`, after `request.session.create()` when there is none.
    The row of a session without a user is left out. -/
def visitorSession (request : Visitor) : M String := do
  match request.sessionKey with
  | some key => return key
  | none => do
      let newKey ← Prog.fresh
      return toString newKey

/-- `now.astimezone(UTC).date()`, as the number of the day. -/
def utcDate (now : Time) : Nat := now / days 1

/-- `ProductView.objects.get_or_create(...)`.  That its commit waits for the product to
    be unlocked, to check the foreign key, is left out: nothing below needs it. -/
def recordViewRow (row : ProductView) : M Unit := do
  let _ ← getOrCreate
    (fetch fun s => s.productViews.find? fun r =>
      r.product == row.product && r.viewedOn == row.viewedOn &&
        r.viewerDigest == row.viewerDigest) do
      insertRow [.productView row.product row.viewedOn row.viewerDigest] (addProductView row)
      return row
  return ()

/-- `record_product_view`, with the digest of a product, a day and a session. -/
def recordProductView (digest : Nat → Nat → String → String) (request : Visitor)
    (product : Product) : M ProductMetric := do
  if request.user == some product.owner then recomputeProductMetric product.pk
  else do
    let sessionKey ← visitorSession request
    let now ← timezoneNow
    let viewedOn := utcDate now
    recordViewRow ⟨product.pk, viewedOn, digest product.pk viewedOn sessionKey⟩
    recomputeProductMetric product.pk

variable {p : Platform} {Γ : Ctx Store Lock Exn Obs} {w w' : World Store Lock Obs}
  {s s' : Store} {held : List Lock} {n : Nat} {floor : Nat → Nat} {F : Exn → Prop}
  {f g : Store → Store}

/-! ## What belongs to a product -/

def favoritesOf (n : Nat) (s : Store) : List Favorite := s.favorites.filter (·.product == n)
def favoritesBy (n : Nat) (s : Store) : List Favorite := s.favorites.filter (·.user == n)
def viewsOf (n : Nat) (s : Store) : List ProductView := s.productViews.filter (·.product == n)
def metricsOf (n : Nat) (s : Store) : List ProductMetric :=
  s.productMetrics.filter (·.product == n)

def IsFavorite (user n : Nat) (s : Store) : Prop :=
  ∃ r ∈ s.favorites, r.user = user ∧ r.product = n

/-- What the row locks of users and products protect of favorites and metrics; no view is
    ever taken back. -/
def engagementDiscipline : Discipline Store Lock where
  same l s s' := match l with
    | .row .user n => favoritesBy n s' = favoritesBy n s
    | .row .product n => favoritesOf n s' = favoritesOf n s ∧ metricsOf n s' = metricsOf n s
    | _ => True
  keep s s' := s.productViews <+: s'.productViews

/-- The rules compose, and a lock once taken protects until it is let go. -/
theorem engagementDiscipline_lawful : engagementDiscipline.Lawful where
  same_refl l s := by
    cases l with
    | row t n =>
        cases t with
        | user => exact rfl
        | product => exact ⟨rfl, rfl⟩
        | _ => trivial
    | _ => trivial
  same_trans l s s' s'' h h' := by
    cases l with
    | row t n =>
        cases t with
        | user => exact Eq.trans h' h
        | product => exact ⟨h'.1.trans h.1, h'.2.trans h.2⟩
        | _ => trivial
    | _ => trivial
  keep_refl _ := List.prefix_rfl
  keep_trans _ _ _ h h' := List.IsPrefix.trans h h'

/-- What others may have locked is left alone. -/
def EngagementRespects (held : List Lock) (s s' : Store) : Prop :=
  engagementDiscipline.guar marketDb held s s'

/-- What a write has to show: views grow, and open favorites and metrics stay. -/
theorem engagementRespects_of (hviews : s.productViews <+: s'.productViews)
    (huser : ∀ n, Open held (.row .user n) → favoritesBy n s' = favoritesBy n s)
    (hproduct : ∀ n, Open held (.row .product n) →
      favoritesOf n s' = favoritesOf n s ∧ metricsOf n s' = metricsOf n s) :
    EngagementRespects held s s' := by
  refine ⟨hviews, fun l hl => ?_⟩
  cases l with
  | row t n =>
      cases t with
      | user => exact huser n hl
      | product => exact hproduct n hl
      | _ => trivial
  | _ => trivial

/-- A lock that is open is not the session's own. -/
theorem ne_of_open {t : Table} {m : Nat} (hheld : .row t n ∈ held) (hopen : Open held (.row t m)) :
    m ≠ n := by
  rintro rfl
  exact hopen _ hheld ⟨rfl, rfl⟩

/-- The constraints of the tables; no metric counts more views than there are, and from the
    start on there have been at least `floor` views of a product. -/
structure EngagementInv (floor : Nat → Nat) (s : Store) : Prop where
  favoriteKeys : (s.favorites.map (·.pk)).Nodup
  favorites : (s.favorites.map fun r => (r.user, r.product)).Nodup
  views : s.productViews.Nodup
  metrics : ∀ n, (metricsOf n s).length ≤ 1
  below : ∀ n, ∀ m ∈ metricsOf n s, m.viewCount ≤ (viewsOf n s).length
  floor : ∀ n, floor n ≤ (viewsOf n s).length

/-- The views of a product grow. -/
theorem length_viewsOf_le (h : s.productViews <+: s'.productViews) :
    (viewsOf n s).length ≤ (viewsOf n s').length := by
  obtain ⟨new, hnew⟩ := h
  rw [viewsOf, viewsOf, ← hnew, List.filter_append, List.length_append]
  exact Nat.le_add_right _ _

/-- A context in which the others also respect the locks of favorites and metrics. -/
structure EngagementAbides (p : Platform) (floor : Nat → Nat) (Γ : Ctx Store Lock Exn Obs) :
    Prop where
  abides : Abides p Γ
  rely : ∀ held s s', Γ.rely held s s' → engagementDiscipline.rely held s s'
  steady : Steady Γ (EngagementInv floor)

section Others

variable (hE : EngagementAbides p floor Γ) (hn : Near Γ w w')
include hE hn

/-- Others add views only. -/
theorem EngagementAbides.views : w.db.productViews <+: w'.db.productViews :=
  (hE.rely _ _ _ hn.db).1

/-- Under the lock of a product its favorites and metrics are at rest. -/
theorem EngagementAbides.product (hl : .row .product n ∈ w.sess.held) :
    favoritesOf n w'.db = favoritesOf n w.db ∧ metricsOf n w'.db = metricsOf n w.db :=
  (hE.rely _ _ _ hn.db).2 _ hl

/-- Under the lock of a user that user's favorites are at rest. -/
theorem EngagementAbides.user (hl : .row .user n ∈ w.sess.held) :
    favoritesBy n w'.db = favoritesBy n w.db :=
  (hE.rely _ _ _ hn.db).2 _ hl

/-- Others keep the invariant. -/
theorem EngagementAbides.inv (hI : EngagementInv floor w.db) : EngagementInv floor w'.db :=
  hE.steady _ _ _ hn.db hI

end Others

/-! ## Pending writes -/

/-- Pending writes of which those to a product depend on that product only. -/
structure Pending (f : Store → Store) : Prop where
  views : ∀ s, (f s).productViews = s.productViews
  favorites : ∀ n s s', favoritesOf n s' = favoritesOf n s →
    favoritesOf n (f s') = favoritesOf n (f s)
  metrics : ∀ n s s', metricsOf n s' = metricsOf n s → metricsOf n (f s') = metricsOf n (f s)

theorem Pending.id : Pending id := ⟨fun _ => rfl, fun _ _ _ h => h, fun _ _ _ h => h⟩

/-- One pending write after another. -/
theorem Pending.comp (hg : Pending g) (hf : Pending f) : Pending fun s => g (f s) where
  views s := (hg.views _).trans (hf.views s)
  favorites n s s' h := hg.favorites n _ _ (hf.favorites n s s' h)
  metrics n s s' h := hg.metrics n _ _ (hf.metrics n s s' h)

/-- Writes that leave favorites, views and metrics alone. -/
def EngagementSame (s s' : Store) : Prop :=
  s'.favorites = s.favorites ∧ s'.productViews = s.productViews ∧
    s'.productMetrics = s.productMetrics

/-- To leave the counts alone is a relation of steps. -/
theorem engagementSame_composes : Composes EngagementSame where
  refl _ := ⟨rfl, rfl, rfl⟩
  trans _ _ _ h h' := ⟨h'.1.trans h.1, h'.2.1.trans h.2.1, h'.2.2.trans h.2.2⟩

theorem EngagementSame.favoritesOf (h : EngagementSame s s') :
    favoritesOf n s' = favoritesOf n s := by
  rw [Market.favoritesOf, h.1]
  rfl

theorem EngagementSame.metricsOf (h : EngagementSame s s') : metricsOf n s' = metricsOf n s := by
  rw [Market.metricsOf, h.2.2]
  rfl

/-- A pending write may be followed by one that leaves the counts alone. -/
theorem EngagementSame.pending (h : ∀ s, EngagementSame (f s) (g s)) (hf : Pending f) :
    Pending g where
  views s := (h s).2.1.trans (hf.views s)
  favorites n s s' hs := by
    rw [(h s).favoritesOf, (h s').favoritesOf, hf.favorites n s s' hs]
  metrics n s s' hs := by
    rw [(h s).metricsOf, (h s').metricsOf, hf.metrics n s s' hs]

/-- A favorite counts for its product. -/
theorem favoritesOf_addFavorite (r : Favorite) (s : Store) : favoritesOf n (addFavorite r s) =
    favoritesOf n s ++ [r].filter (·.product == n) :=
  List.filter_append ..

/-- A removed favorite no longer counts. -/
theorem favoritesOf_removeFavorites (pks : List Nat) (s : Store) :
    favoritesOf n (removeFavorites pks s) =
      (favoritesOf n s).filter fun r => !pks.contains r.pk := by
  rw [favoritesOf, removeFavorites, List.filter_filter, favoritesOf, List.filter_filter]
  exact List.filter_congr fun _ _ => Bool.and_comm _ _

/-- A favorite is pending, whatever the store. -/
theorem pending_addFavorite (r : Favorite) : Pending (addFavorite r) where
  views _ := rfl
  favorites n s s' h := by rw [favoritesOf_addFavorite, favoritesOf_addFavorite, h]
  metrics _ _ _ h := h

theorem pending_removeFavorites (pks : List Nat) : Pending (removeFavorites pks) where
  views _ := rfl
  favorites n s s' h := by rw [favoritesOf_removeFavorites, favoritesOf_removeFavorites, h]
  metrics _ _ _ h := h

/-- A metric row is that of its product. -/
theorem metricsOf_addMetric (m : ProductMetric) (s : Store) :
    metricsOf n (addMetric m s) = metricsOf n s ++ [m].filter (·.product == n) :=
  List.filter_append ..

/-- A metric row that is set replaces the one of its product. -/
theorem metricsOf_setMetric (m : ProductMetric) (s : Store) : metricsOf n (setMetric m s) =
    if m.product = n then (metricsOf n s).map fun _ => m else metricsOf n s := by
  have hsame : ((fun r : ProductMetric => r.product == n) ∘
      fun r => if r.product = m.product then m else r) = fun r => r.product == n := by
    funext r
    show ((if r.product = m.product then m else r).product == n) = (r.product == n)
    split
    · next hr => rw [hr]
    · rfl
  show (s.productMetrics.map _).filter _ = _
  rw [List.filter_map, hsame]
  split
  · next hm =>
      refine List.map_congr_left fun r hr => if_pos ?_
      rw [beq_iff_eq.mp (List.mem_filter.mp hr).2, hm]
  · next hm =>
      refine (List.map_congr_left fun r hr => if_neg fun h => hm ?_).trans (List.map_id _)
      rw [← h, beq_iff_eq.mp (List.mem_filter.mp hr).2]

theorem pending_addMetric (m : ProductMetric) : Pending (addMetric m) where
  views _ := rfl
  favorites _ _ _ h := h
  metrics n s s' h := by rw [metricsOf_addMetric, metricsOf_addMetric, h]

theorem pending_setMetric (m : ProductMetric) : Pending (setMetric m) where
  views _ := rfl
  favorites _ _ _ h := h
  metrics n s s' h := by rw [metricsOf_setMetric, metricsOf_setMetric, h]

/-! ## `recompute_product_metric` -/

/-- The counts of a product, as a recomputation is about to commit them. -/
structure Tallied (n low : Nat) (held : List Lock) (s : Store) (f : Store → Store) : Prop where
  lock : .row .product n ∈ held
  metric : ∃ m, metricsOf n (f s) = [m] ∧ m.favoriteCount = (favoritesOf n (f s)).length ∧
    low ≤ m.viewCount ∧ m.viewCount ≤ (viewsOf n s).length ∧
    ∀ m' ∈ metricsOf n s, m'.viewCount ≤ m.viewCount

/-- Nothing changed but the metric of the product. -/
def OnlyMetric (n : Nat) (s s' : Store) : Prop :=
  MetricsOnly s s' ∧ ∀ k, k ≠ n → metricsOf k s' = metricsOf k s

/-- A tally holds as long as the product is locked. -/
theorem Tallied.near (hE : EngagementAbides p floor Γ) (hf : Pending f) {low : Nat}
    (h : Tallied n low w.sess.held w.db f) (hn : Near Γ w w') :
    Tallied n low w'.sess.held w'.db f := by
  obtain ⟨m, hm, hfavorites, hlow, hviews, hold⟩ := h.metric
  obtain ⟨hsame, hmetrics⟩ := hE.product hn h.lock
  refine ⟨hn.held h.lock, m, ?_, ?_, hlow, ?_, ?_⟩
  · rw [hf.metrics n _ _ hmetrics, hm]
  · rw [hf.favorites n _ _ hsame, hfavorites]
  · exact Nat.le_trans hviews (length_viewsOf_le (hE.views hn))
  · rw [hmetrics]
    exact hold

/-- **COUNTS**: the favorites and the metric cannot change while they are counted; the views
    can, and are counted at a moment in between. -/
theorem look_metricCounts_tally (hE : EngagementAbides p floor Γ) (hF : Faults Γ F)
    (hI : EngagementInv floor w.db) (hp : Pending w.sess.pend)
    (hl : .row .product n ∈ w.sess.held) :
    Look Γ (metricCounts n) w (fun m w' => m.product = n ∧
      m.favoriteCount = (favoritesOf n w'.view).length ∧ (viewsOf n w.db).length ≤ m.viewCount ∧
      m.viewCount ≤ (viewsOf n w'.db).length ∧
      ∀ m' ∈ metricsOf n w'.db, m'.viewCount ≤ m.viewCount) F := by
  have hΓ := hE.abides.lawful
  refine Look.bind hΓ (look_fetch hF _) fun favorites w1 h1 hfavorites => ?_
  refine Look.bind hΓ (look_fetch hF _) fun views w2 h2 hviews => ?_
  refine Look.bind hΓ (look_fetch hF _) fun chats w3 h3 _ => ?_
  refine Look.bind hΓ (look_fetch hF _) fun completed w4 h4 _ => Look.ret hΓ ?_
  have h02 : Still Γ w w2 := h1.trans hΓ h2
  have h24 : Still Γ w2 w4 := h3.trans hΓ h4
  have hcount : views = (viewsOf n w2.db).length := by
    rw [hviews, h02.view, hp.views]
    rfl
  refine ⟨rfl, ?_, ?_, ?_, ?_⟩
  · -- nobody else has changed a favorite of the product
    show favorites = _
    rw [hfavorites, h1.view, (h02.trans hΓ h24).view]
    exact congrArg List.length (hp.favorites n _ _
      (hE.product (h2.trans hΓ h24).toNear (h1.held hl)).1).symm
  · show _ ≤ views
    rw [hcount]
    exact length_viewsOf_le (hE.views h02.toNear)
  · show views ≤ _
    rw [hcount]
    exact length_viewsOf_le (hE.views h24.toNear)
  · intro m' hm'
    show _ ≤ views
    rw [(hE.product h24.toNear (h02.held hl)).2] at hm'
    rw [hcount]
    exact (hE.inv h02.toNear hI).below n m' hm'

/-- The metric of a locked product is found, or may be added. -/
theorem body_findMetric (hE : EngagementAbides p floor Γ) (hF : Faults Γ F)
    (hI : EngagementInv floor w.db) (hnew : ∀ s, metricsOf n (w.sess.pend s) = metricsOf n s)
    (hopen : w.sess.frames ≠ []) (hl : .row .product n ∈ w.sess.held) {m : ProductMetric}
    (hm : m.product = n) :
    Body Γ (getOrCreate
      (firstForUpdate .productMetric (·.productMetrics) (·.product) (·.product == n))
      (do insertRow [.productMetric n] (addMetric m); return m)) w
      (fun r w' => if r.2 then metricsOf n w'.db = [] ∧
          w'.sess.pend = fun s => addMetric m (w.sess.pend s)
        else (∃ m', metricsOf n w'.db = [m']) ∧ w'.sess.pend = w.sess.pend) F := by
  have hΓ := hE.abides.lawful
  -- under the lock of the product every look finds the same rows
  have hview : ∀ {w'}, Still Γ w w' → metricsOf n w'.view = metricsOf n w.db := fun hs => by
    rw [hs.view, hnew, (hE.product hs.toNear hl).2]
  have hsome : ∀ {w' : World Store Lock Obs} {a : ProductMetric}, Still Γ w w' →
      a ∈ w'.view.productMetrics → (a.product == n) = true → a ∈ metricsOf n w.db :=
    fun hs ha hn => hview hs ▸ List.mem_filter.mpr ⟨ha, hn⟩
  cases hrows : metricsOf n w.db with
  | nil =>
      refine body_getOrCreate hΓ hF hopen (fun w1 h1 => ?_) fun w1 w2 h1 he => ?_
      · refine (look_firstForUpdate hΓ hF _ _ _ _).mono fun r w2 h2 hr a ha => ?_
        subst ha
        have hmem := hsome (h1.trans hΓ h2) hr.1 hr.2.1
        rw [hrows] at hmem
        exact nomatch hmem
      · have h02 : Still Γ w w2 := h1.trans hΓ he.still
        have hpend : w2.begin.sess.pend = w.sess.pend := h02.pend
        have hl2 : .row .product n ∈ w2.begin.sess.held := h02.held hl
        have hnone : metricsOf n w2.begin.db = [] := (hE.product h02.toNear hl).2.trans hrows
        refine Body.bind hΓ (body_insertRow_of hΓ hF (fun w3 h3 ⟨i, hi, hpresent⟩ => ?_)
          fun held _ hkeys s => hE.abides.leave _ _ _ (respects_addMetric ?_))
          fun _ w3 h3 hins => Body.ret hΓ fun w4 he4 => ?_
        · -- nobody else has added one
          rw [List.mem_singleton.mp hi] at hpresent
          obtain ⟨a, ha, hp⟩ := List.any_eq_true.mp hpresent
          have hmem : a ∈ metricsOf n w3.view := List.mem_filter.mpr ⟨ha, hp⟩
          rw [h3.view, hpend, hnew, (hE.product h3.toNear hl2).2, hnone] at hmem
          exact nomatch hmem
        · rw [hm]
          exact hkeys _ List.mem_cons_self
        · have hn4 : Near Γ w2.begin w4 := h3.toNear.trans hΓ he4.still.toNear
          refine ⟨(hE.product hn4 hl2).2.trans hnone, ?_⟩
          show w4.sess.pend = _
          rw [he4.sess, hins.pend, hpend]
  | cons a rest =>
      have hone : metricsOf n w.db = [a] := by
        have hlength := hI.metrics n
        rw [hrows] at hlength ⊢
        rw [List.length_eq_zero_iff.mp (Nat.le_zero.mp (Nat.le_of_succ_le_succ hlength))]
      have ha : a ∈ metricsOf n w.db := hone ▸ List.mem_cons_self
      refine Body.look hΓ (look_firstForUpdate hΓ hF _ _ _ _) fun r w1 h1 hr => ?_
      cases r with
      | some b =>
          refine Body.ret hΓ ⟨⟨a, ?_⟩, h1.pend⟩
          rw [(hE.product h1.toNear hl).2, hone]
      | none =>
          -- it was there at the first look and at the second
          obtain ⟨w0, h0, -, hnone⟩ := hr
          have hseen : ∀ {w'}, Still Γ w w' →
              a ∈ w'.view.productMetrics ∧ (a.product == n) = true :=
            fun hs => List.mem_filter.mp (by rw [← hview hs] at ha; exact ha)
          exact absurd rfl (hnone a (hseen h1).1 (hseen h1).2 a (hseen h0).1 (hseen h0).2)

/-- Only the row of the product changes. -/
theorem onlyMetric_addMetric {m : ProductMetric} (hm : m.product = n) (s : Store) :
    OnlyMetric n s (addMetric m s) := by
  refine ⟨rfl, fun k hk => ?_⟩
  rw [metricsOf_addMetric]
  simp [hm, Ne.symm hk]

theorem onlyMetric_setMetric {m : ProductMetric} (hm : m.product = n) (s : Store) :
    OnlyMetric n s (setMetric m s) := by
  refine ⟨rfl, fun k hk => ?_⟩
  rw [metricsOf_setMetric, if_neg]
  rintro rfl
  exact hk hm

/-- `update_or_create`, of the metric of a locked product. -/
theorem body_writeMetric (hE : EngagementAbides p floor Γ) (hF : Faults Γ F)
    (hI : EngagementInv floor w.db) (hp : Pending w.sess.pend)
    (hnew : ∀ s, metricsOf n (w.sess.pend s) = metricsOf n s)
    (hopen : w.sess.frames ≠ []) (hl : .row .product n ∈ w.sess.held) {m : ProductMetric}
    (hm : m.product = n) :
    Body Γ (do
      let (_, created) ← getOrCreate
        (firstForUpdate .productMetric (·.productMetrics) (·.product) (·.product == n))
        (do insertRow [.productMetric n] (addMetric m); return m)
      if created then return m
      else do
        updateRows .productMetric [n] (setMetric m)
        return m) w
      (fun _ w' => metricsOf n w'.view = [m] ∧ Pending w'.sess.pend ∧
        ∀ s, OnlyMetric n (w.sess.pend s) (w'.sess.pend s)) F := by
  have hΓ := hE.abides.lawful
  refine Body.bind hΓ (body_findMetric hE hF hI hnew hopen hl hm) fun ⟨r, created⟩ w1 h1 hr => ?_
  cases created with
  | true =>
      obtain ⟨hnone, hp1⟩ := hr
      refine Body.ret hΓ ⟨?_, ?_, fun s => ?_⟩
      · rw [World.view, hp1, metricsOf_addMetric, hnew, hnone]
        simp [hm]
      · rw [hp1]
        exact (pending_addMetric m).comp hp
      · rw [hp1]
        exact onlyMetric_addMetric hm _
  | false =>
      obtain ⟨⟨m', hone⟩, hp1⟩ := hr
      have hl1 : .row .product n ∈ w1.sess.held := h1.held hl
      refine Body.bind hΓ (body_updateRows hΓ hF fun held _ _ s =>
        hE.abides.leave _ _ _ respects_setMetric) fun _ w2 h2 hw2 => Body.ret hΓ ?_
      have hp2 := hw2.1
      refine ⟨?_, ?_, fun s => ?_⟩
      · rw [World.view, hp2, metricsOf_setMetric, if_pos hm, hp1, hnew,
          (hE.product h2.toNear hl1).2, hone]
        rfl
      · rw [hp2, hp1]
        exact (pending_setMetric m).comp hp
      · rw [hp2, hp1]
        exact onlyMetric_setMetric hm _

/-- **SPECIFICATION** of `recompute_product_metric`, given that it finds the product or may
    raise that it is not there. -/
theorem body_recomputeProductMetricBody (hE : EngagementAbides p floor Γ) (hF : Faults Γ F)
    (hI : EngagementInv floor w.db) (hp : Pending w.sess.pend)
    (hnew : ∀ s, metricsOf n (w.sess.pend s) = metricsOf n s) (hopen : w.sess.frames ≠ [])
    (hget : Look Γ (getForUpdate .product (·.products) (·.pk) (·.pk == n)) w
      (fun r w' => r.pk = n ∧ .row .product n ∈ w'.sess.held) F) :
    Body Γ (recomputeProductMetricBody n) w (fun _ w' =>
      Tallied n (viewsOf n w.db).length w'.sess.held w'.db w'.sess.pend ∧
      Pending w'.sess.pend ∧ ∀ s, OnlyMetric n (w.sess.pend s) (w'.sess.pend s)) F := by
  have hΓ := hE.abides.lawful
  refine Body.look hΓ hget fun row w1 h1 ⟨hpk, hl1⟩ => ?_
  rw [hpk]
  have hp1 : Pending w1.sess.pend := h1.pend ▸ hp
  refine Body.look hΓ (look_metricCounts_tally hE hF (hE.inv h1.toNear hI) hp1 hl1)
    fun m w2 h2 ⟨hm, hfavorites, hlow, hviews, hold⟩ => ?_
  have h02 : Still Γ w w2 := h1.trans hΓ h2
  have hl2 : .row .product n ∈ w2.sess.held := h2.held hl1
  have hp2 : Pending w2.sess.pend := h02.pend ▸ hp
  have hnew2 : ∀ s, metricsOf n (w2.sess.pend s) = metricsOf n s := h02.pend ▸ hnew
  have hI2 := hE.inv h02.toNear hI
  refine (Body.atomic (P := fun _ _ w' => metricsOf n w'.view = [m] ∧ Pending w'.sess.pend ∧
    ∀ s, OnlyMetric n (w.sess.pend s) (w'.sess.pend s)) hΓ hF ?_ fun w3 he => ?_).mono ?_
  · rw [h02.frames]
    exact hopen
  · have h23 := he.still
    have hbegin : w3.begin.sess.pend = w2.sess.pend := h23.pend
    have hI3 : EngagementInv floor w3.db := hE.inv h23.toNear hI2
    refine (body_writeMetric (w := w3.begin) hE hF hI3 (hbegin ▸ hp2)
      (hbegin ▸ hnew2) (begin_open w3) (h23.held hl2) hm).mono
        fun _ w4 _ ⟨hmetric, hp4, honly⟩ => ⟨hmetric, hp4, fun s => ?_⟩
    have honly' := honly s
    rw [hbegin, h02.pend] at honly'
    exact honly'
  · rintro _ _ hw ⟨w3, w4, w5, he, hw4, ⟨hmetric, hp4, honly⟩, he5, rfl⟩
    -- what was counted is still so at the end of the savepoint
    have hl4 : .row .product n ∈ w4.sess.held := hw4.held (he.still.held hl2)
    have h25 : Near Γ w2 w5.release := hw.toNear
    obtain ⟨hsame, hmetrics⟩ := hE.product h25 hl2
    have hpend : w5.release.sess.pend = w4.sess.pend := he5.still.pend
    have hfavorites' : ∀ s, favoritesOf n (w4.sess.pend s) = favoritesOf n (w2.sess.pend s) :=
      fun s => by
        have h := (honly s).1
        rw [favoritesOf, h, h02.pend]
        rfl
    rw [hpend]
    refine ⟨⟨h25.held hl2, m, ?_, ?_, ?_, ?_, ?_⟩, hp4, honly⟩
    · exact (hp4.metrics n _ _ (hE.product he5.still.toNear hl4).2).trans hmetric
    · rw [hfavorites, hfavorites']
      exact congrArg List.length (hp2.favorites n _ _ hsame).symm
    · exact Nat.le_trans (length_viewsOf_le (hE.views h1.toNear)) hlow
    · exact Nat.le_trans hviews (length_viewsOf_le (hE.views h25))
    · intro m' hm'
      refine hold m' ?_
      rw [← hmetrics]
      exact hm'

/-- The same inside a transaction. -/
theorem body_recomputeProductMetric (hE : EngagementAbides p floor Γ)
    (hI : EngagementInv floor w.db) (hp : Pending w.sess.pend)
    (hnew : ∀ s, metricsOf n (w.sess.pend s) = metricsOf n s) (hopen : w.sess.frames ≠ []) :
    Body Γ (recomputeProductMetric n) w (fun _ w' =>
      Tallied n (viewsOf n w.db).length w'.sess.held w'.db w'.sess.pend ∧
      Pending w'.sess.pend ∧ ∀ s, OnlyMetric n (w.sess.pend s) (w'.sess.pend s)) anyError := by
  have hΓ := hE.abides.lawful
  refine (Body.atomic (P := fun _ _ w' =>
    Tallied n (viewsOf n w.db).length w'.sess.held w'.db w'.sess.pend ∧
    Pending w'.sess.pend ∧ ∀ s, OnlyMetric n (w.sess.pend s) (w'.sess.pend s)) hΓ
    anyError_faults hopen fun w1 he => ?_).mono ?_
  · have h1 := he.still
    have hbegin : w1.begin.sess.pend = w.sess.pend := h1.pend
    have hI1 : EngagementInv floor w1.db := hE.inv h1.toNear hI
    refine (body_recomputeProductMetricBody (w := w1.begin) hE anyError_faults hI1
      (hbegin ▸ hp) (hbegin ▸ hnew) (begin_open w1) ?_).mono
        fun _ w2 _ ⟨ht, hp2, honly⟩ => ?_
    · refine (look_getForUpdate hΓ anyError_faults _ _ _ _ trivial).mono
        fun r w2 _ ⟨_, hpk, hl⟩ => ?_
      rw [beq_iff_eq] at hpk
      exact ⟨hpk, hpk ▸ hl⟩
    · rw [hbegin] at honly
      obtain ⟨m, hm, hfavorites, hlow, hrest⟩ := ht.metric
      exact ⟨⟨ht.lock, m, hm, hfavorites,
        Nat.le_trans (length_viewsOf_le (hE.views h1.toNear)) hlow, hrest⟩, hp2, honly⟩
  · rintro _ _ _ ⟨w1, w2, w3, -, -, ⟨ht, hp2, honly⟩, he, rfl⟩
    have hpend : w3.release.sess.pend = w2.sess.pend := he.still.pend
    have ht3 := ht.near hE hp2 he.still.toNear
    rw [hpend]
    exact ⟨ht3, hp2, honly⟩

/-! ## What one commit does -/

/-- What a commit makes of the favorites and the metric of a product: it leaves both alone,
    or leaves a metric that has been counted under the lock of the product. -/
inductive EngagementRow (floor : Nat → Nat) (n : Nat) (s s' : Store) : Prop where
  | same : favoritesOf n s' = favoritesOf n s → metricsOf n s' = metricsOf n s →
      EngagementRow floor n s s'
  | counted (m : ProductMetric) : metricsOf n s' = [m] →
      m.favoriteCount = (favoritesOf n s').length → floor n ≤ m.viewCount →
      m.viewCount ≤ (viewsOf n s').length →
      (∀ m' ∈ metricsOf n s, m'.viewCount ≤ m.viewCount) → EngagementRow floor n s s'

/-- A commit of a service that changes favorites, views or metrics. -/
structure EngagementStep (floor : Nat → Nat) (s s' : Store) : Prop where
  inv : EngagementInv floor s'
  views : s.productViews <+: s'.productViews
  rows : ∀ n, EngagementRow floor n s s'

/-- What a commit makes of the favorites, when it has counted those of `products`. -/
inductive FavoriteChange (products : List Nat) (held : List Lock) (s s' : Store) : Prop where
  | kept : s'.favorites = s.favorites → FavoriteChange products held s s'
  | added (r : Favorite) : .row .user r.user ∈ held → r.product ∈ products →
      (∀ x ∈ s.favorites, x.pk ≠ r.pk ∧ ¬ (x.user = r.user ∧ x.product = r.product)) →
      s'.favorites = s.favorites ++ [r] → FavoriteChange products held s s'
  | removed (user : Nat) (q : Favorite → Bool) : .row .user user ∈ held →
      (∀ r, q r = true → r.user = user) → (∀ r ∈ s.favorites, q r = true → r.product ∈ products) →
      s'.favorites = (s.favorites.filter fun r => !q r) → FavoriteChange products held s s'

/-- A change of favorites keeps the primary key and the key of user and product. -/
theorem FavoriteChange.keys {products : List Nat} (h : FavoriteChange products held s s')
    (hI : EngagementInv floor s) : (s'.favorites.map (·.pk)).Nodup ∧
      (s'.favorites.map fun r => (r.user, r.product)).Nodup := by
  cases h with
  | kept h =>
      rw [h]
      exact ⟨hI.favoriteKeys, hI.favorites⟩
  | added r _ _ hfree h =>
      rw [h, List.map_append, List.map_append, List.nodup_append', List.nodup_append']
      refine ⟨⟨hI.favoriteKeys, List.nodup_singleton _, ?_⟩, hI.favorites,
        List.nodup_singleton _, ?_⟩
      · rintro k hk hk'
        obtain ⟨x, hx, rfl⟩ := List.mem_map.mp hk
        exact (hfree x hx).1 (List.mem_singleton.mp hk')
      · rintro k hk hk'
        obtain ⟨x, hx, rfl⟩ := List.mem_map.mp hk
        exact (hfree x hx).2 (Prod.mk.inj (List.mem_singleton.mp hk'))
  | removed user q _ _ _ h =>
      rw [h]
      exact ⟨hI.favoriteKeys.sublist (List.Sublist.map _ List.filter_sublist),
        hI.favorites.sublist (List.Sublist.map _ List.filter_sublist)⟩

/-- Favorites of others, and of products that were not counted. -/
theorem FavoriteChange.others {products : List Nat} (h : FavoriteChange products held s s') :
    (∀ u, Open held (.row .user u) → favoritesBy u s' = favoritesBy u s) ∧
      ∀ n, n ∉ products → favoritesOf n s' = favoritesOf n s := by
  cases h with
  | kept h =>
      constructor
      · intro u _
        rw [favoritesBy, h]
        rfl
      · intro n _
        rw [favoritesOf, h]
        rfl
  | added r hlock hproduct _ h =>
      constructor
      · intro u hu
        have hne : (r.user == u) = false := beq_eq_false_iff_ne.mpr (ne_of_open hlock hu).symm
        simp [favoritesBy, h, hne]
      · intro n hn
        have hne : (r.product == n) = false :=
          beq_eq_false_iff_ne.mpr fun he => hn (he ▸ hproduct)
        simp [favoritesOf, h, hne]
  | removed user q hlock huser hproduct h =>
      constructor
      · intro u hu
        rw [favoritesBy, h, List.filter_filter]
        refine List.filter_congr fun r _ => ?_
        cases hr : q r with
        | false => exact Bool.and_true _
        | true =>
            have hne : (r.user == u) = false := by
              rw [huser r hr]
              exact beq_eq_false_iff_ne.mpr (ne_of_open hlock hu).symm
            rw [hne]
            rfl
      · intro n hn
        rw [favoritesOf, h, List.filter_filter]
        refine List.filter_congr fun r hmem => ?_
        cases hr : q r with
        | false => exact Bool.and_true _
        | true =>
            have hne : (r.product == n) = false :=
              beq_eq_false_iff_ne.mpr fun he => hn (he ▸ hproduct r hmem hr)
            rw [hne]
            rfl

/-- What a transaction that counts `products` is about to commit. -/
structure EngagementEnd (floor : Nat → Nat) (products : List Nat) (held : List Lock) (s : Store)
    (f : Store → Store) : Prop where
  pending : Pending f
  counted : ∀ n ∈ products, Tallied n (floor n) held s f
  metrics : ∀ n, n ∉ products → metricsOf n (f s) = metricsOf n s
  favorites : FavoriteChange products held s (f s)

/-- What a transaction leaves, product by product. -/
theorem EngagementEnd.rows {products : List Nat} (h : EngagementEnd floor products held s f)
    (n : Nat) : EngagementRow floor n s (f s) := by
  by_cases hn : n ∈ products
  · obtain ⟨m, hm, hfavorites, hlow, hviews, hold⟩ := (h.counted n hn).metric
    refine .counted m hm hfavorites hlow ?_ hold
    rw [viewsOf, h.pending.views]
    exact hviews
  · exact .same (h.favorites.others.2 n hn) (h.metrics n hn)

/-- A product keeps one metric row at most. -/
theorem EngagementRow.one (h : EngagementRow floor n s s') (hI : EngagementInv floor s) :
    (metricsOf n s').length ≤ 1 := by
  cases h with
  | same _ h =>
      rw [h]
      exact hI.metrics n
  | counted m h =>
      rw [h]
      exact Nat.le_refl 1

/-- A row counts no more views than there are. -/
theorem EngagementRow.below (h : EngagementRow floor n s s') (hI : EngagementInv floor s)
    (hviews : s.productViews <+: s'.productViews) :
    ∀ m ∈ metricsOf n s', m.viewCount ≤ (viewsOf n s').length := by
  intro m hm
  cases h with
  | same _ h =>
      rw [h] at hm
      exact Nat.le_trans (hI.below n m hm) (length_viewsOf_le hviews)
  | counted m' h _ _ hle =>
      rw [h] at hm
      exact List.mem_singleton.mp hm ▸ hle

/-- **COMMIT** of a transaction that counts `products`. -/
theorem EngagementEnd.step {products : List Nat} (h : EngagementEnd floor products held s f)
    (hI : EngagementInv floor s) : EngagementStep floor s (f s) := by
  have hviews : (f s).productViews = s.productViews := h.pending.views s
  have hprefix : s.productViews <+: (f s).productViews := by rw [hviews]
  obtain ⟨hkeys, hpairs⟩ := h.favorites.keys hI
  refine ⟨⟨hkeys, hpairs, hviews ▸ hI.views, fun n => (h.rows n).one hI,
    fun n => (h.rows n).below hI hprefix, fun n => ?_⟩, hprefix, h.rows⟩
  exact Nat.le_trans (hI.floor n) (length_viewsOf_le hprefix)

/-- What a transaction leaves is within the rules. -/
theorem EngagementEnd.respects {products : List Nat} (h : EngagementEnd floor products held s f) :
    EngagementRespects held s (f s) := by
  refine engagementRespects_of (by rw [h.pending.views]) h.favorites.others.1 fun n hn => ?_
  have hproduct : n ∉ products := fun hmem => ne_of_open (h.counted n hmem).lock hn rfl
  exact ⟨h.favorites.others.2 n hproduct, h.metrics n hproduct⟩

/-- What is known of a metric is known of it after every commit. -/
def AtLeast (n b : Nat) (s : Store) : Prop := ∃ m ∈ metricsOf n s, b ≤ m.viewCount

/-- The product has a metric with the number of its favorites. -/
def Counted (floor : Nat → Nat) (n : Nat) (s : Store) : Prop :=
  ∃ m, metricsOf n s = [m] ∧ m.favoriteCount = (favoritesOf n s).length ∧ floor n ≤ m.viewCount

/-- A row does not fall below what it has counted. -/
theorem EngagementRow.atLeast {b : Nat} (h : EngagementRow floor n s s') (hb : AtLeast n b s) :
    AtLeast n b s' := by
  obtain ⟨m, hm, hle⟩ := hb
  cases h with
  | same _ h => exact ⟨m, h ▸ hm, hle⟩
  | counted m' h _ _ _ hold =>
      exact ⟨m', h ▸ List.mem_singleton.mpr rfl, Nat.le_trans hle (hold m hm)⟩

/-- A product that was counted stays counted. -/
theorem EngagementRow.isCounted (h : EngagementRow floor n s s') (hc : Counted floor n s) :
    Counted floor n s' := by
  cases h with
  | same hfavorites h =>
      rw [Counted, h, hfavorites]
      exact hc
  | counted m h hfavorites hfloor => exact ⟨m, h, hfavorites, hfloor⟩

/-! ## `set_favorite` -/

/-- A favorite takes its key, with the user locked. -/
theorem respects_addFavorite {r : Favorite} (hlock : .row .user r.user ∈ held)
    (hpk : .unique (.pk .favorite r.pk) ∈ held)
    (hkey : .unique (.favorite r.user r.product) ∈ held) :
    Respects p held s (addFavorite r s) := by
  refine Respects.of_table .favorite ?_ { Keeps.refl s with } ?_ ?_ ?_
  · intro t ht
    cases t <;> first | rfl | exact absurd rfl ht
  · intro t n ht hopen
    cases t with
    | user =>
        refine ⟨RowStays.refl _ _ _, rfl, { OwnedSame.refl n s with favorites := ?_ }⟩
        intro x hx hn
        rcases List.mem_append.mp hx with hx | hx
        · exact hx
        · rw [List.mem_singleton.mp hx] at hn
          exact absurd hn.symm (ne_of_open hlock hopen)
    | _ => exact absurd ht (by decide)
  · exact fun _ _ ht => absurd ht (by decide)
  · intro i hi ho h
    cases i with
    | pk t n =>
        cases hi
        exact index_of_append ho (fun hq => by rw [← eq_of_beq hq]; exact hpk) h
    | favorite u n =>
        refine index_of_append ho (fun hq => ?_) h
        rw [Bool.and_eq_true, beq_iff_eq, beq_iff_eq] at hq
        rw [← hq.1, ← hq.2]
        exact hkey
    | _ => exact nomatch hi

/-- What `set_favorite` has written before it counts. -/
inductive FavoriteEnd (user n : Nat) (held : List Lock) (s : Store) :
    Bool → (Store → Store) → Prop where
  | found (r : Favorite) : r ∈ s.favorites → r.user = user → r.product = n →
      FavoriteEnd user n held s true id
  | added (r : Favorite) : r.user = user → r.product = n → Free held s (.pk .favorite r.pk) →
      Free held s (.favorite user n) → FavoriteEnd user n held s true (addFavorite r)
  | removed (pks : List Nat) :
      pks = (s.favorites.filter fun r => r.user == user && r.product == n).map (·.pk) →
      FavoriteEnd user n held s false (removeFavorites pks)

/-- The favorite is there if it is to be, and the others are as they were; if it was so
    before, nothing has changed. -/
structure FavoriteSet (user n : Nat) (active : Bool) (s s' : Store) : Prop where
  set : IsFavorite user n s' ↔ active = true
  others : ∀ u q, ¬ (u = user ∧ q = n) → (IsFavorite u q s' ↔ IsFavorite u q s)
  again : (IsFavorite user n s ↔ active = true) → s'.favorites = s.favorites

/-- A favorite that is added or removed is pending, whatever the store. -/
theorem FavoriteEnd.pending {user : Nat} {active : Bool} (h : FavoriteEnd user n held s active f) :
    Pending f := by
  cases h with
  | found r => exact Pending.id
  | added r => exact pending_addFavorite r
  | removed pks => exact pending_removeFavorites pks

/-- Adding or removing one leaves the metrics. -/
theorem FavoriteEnd.metrics {user : Nat} {active : Bool}
    (h : FavoriteEnd user n held s active f) (s' : Store) :
    (f s').productMetrics = s'.productMetrics := by
  cases h <;> rfl

/-- The favorites of a user are filtered among that user's. -/
theorem filter_favoritesBy (user : Nat) (q : Favorite → Bool) :
    (s.favorites.filter fun r => r.user == user && q r) = (favoritesBy user s).filter q := by
  rw [favoritesBy, List.filter_filter]
  exact List.filter_congr fun _ _ => Bool.and_comm _ _

/-- Under the lock of the user the end stays the end. -/
theorem FavoriteEnd.near (hE : EngagementAbides p floor Γ) {user : Nat} {active : Bool}
    (hl : .row .user user ∈ w.sess.held) (h : FavoriteEnd user n w.sess.held w.db active f)
    (hn : Near Γ w w') : FavoriteEnd user n w'.sess.held w'.db active f := by
  have hsame := hE.user hn hl
  cases h with
  | found r hr huser hproduct =>
      have hby : r ∈ favoritesBy user w'.db := by
        rw [hsame]
        exact List.mem_filter.mpr ⟨hr, beq_iff_eq.mpr huser⟩
      exact .found r (List.mem_filter.mp hby).1 huser hproduct
  | added r huser hproduct hpk hkey =>
      exact .added r huser hproduct (hpk.near hE.abides hn) (hkey.near hE.abides hn)
  | removed pks hpks =>
      refine .removed pks ?_
      rw [hpks, filter_favoritesBy, filter_favoritesBy, hsame]

/-- A `DELETE` by the keys of some rows removes these rows. -/
theorem removeFavorites_eq (hkeys : (s.favorites.map (·.pk)).Nodup) (q : Favorite → Bool) :
    (removeFavorites ((s.favorites.filter q).map (·.pk)) s).favorites =
      s.favorites.filter fun r => !q r := by
  refine List.filter_congr fun r hr => congrArg (!·) ?_
  rw [Bool.eq_iff_iff, List.contains_iff_mem, List.mem_map]
  constructor
  · rintro ⟨x, hx, hpk⟩
    obtain ⟨hx, hq⟩ := List.mem_filter.mp hx
    rw [← List.inj_on_of_nodup_map hkeys hx hr hpk]
    exact hq
  · exact fun hq => ⟨r, List.mem_filter.mpr ⟨hr, hq⟩, rfl⟩

/-- Only the favorites of the product have changed. -/
theorem FavoriteEnd.change {user : Nat} {active : Bool}
    (h : FavoriteEnd user n held s active f) (hl : .row .user user ∈ held)
    (hI : EngagementInv floor s) (hs' : s'.favorites = (f s).favorites) :
    FavoriteChange [n] held s s' := by
  cases h with
  | found r _ _ _ => exact .kept hs'
  | added r huser hproduct hpk hkey =>
      refine .added r (huser ▸ hl) (hproduct ▸ List.mem_cons_self) (fun x hx => ⟨?_, ?_⟩) hs'
      · have hfree := List.any_eq_false.mp hpk.free x hx
        exact fun he => hfree (beq_iff_eq.mpr he)
      · have hfree := List.any_eq_false.mp hkey.free x hx
        rintro ⟨hu, hp⟩
        refine hfree ?_
        rw [Bool.and_eq_true, beq_iff_eq, beq_iff_eq]
        exact ⟨hu.trans huser, hp.trans hproduct⟩
  | removed pks hpks =>
      subst hpks
      refine .removed user (fun r => r.user == user && r.product == n) hl (fun r hr => ?_)
        (fun r _ hr => ?_) (hs'.trans (removeFavorites_eq hI.favoriteKeys _))
      · rw [Bool.and_eq_true, beq_iff_eq, beq_iff_eq] at hr
        exact hr.1
      · rw [Bool.and_eq_true, beq_iff_eq, beq_iff_eq] at hr
        exact hr.2 ▸ List.mem_cons_self

/-- The favorite is set as it was asked for, and no other one is. -/
theorem FavoriteEnd.set {user : Nat} {active : Bool} (h : FavoriteEnd user n held s active f)
    (hI : EngagementInv floor s) (hs' : s'.favorites = (f s).favorites) :
    FavoriteSet user n active s s' := by
  cases h with
  | found r hr huser hproduct =>
      refine ⟨⟨fun _ => rfl, fun _ => ⟨r, hs' ▸ hr, huser, hproduct⟩⟩, fun u q _ => ?_,
        fun _ => hs'⟩
      rw [IsFavorite, hs']
      rfl
  | added r huser hproduct _ hkey =>
      refine ⟨⟨fun _ => rfl, fun _ => ⟨r, ?_, huser, hproduct⟩⟩, fun u q hne => ⟨?_, ?_⟩,
        fun h => ?_⟩
      · rw [hs']
        exact List.mem_append_right _ List.mem_cons_self
      · rintro ⟨x, hx, hu, hq⟩
        rw [hs'] at hx
        rcases List.mem_append.mp hx with hx | hx
        · exact ⟨x, hx, hu, hq⟩
        · rw [List.mem_singleton.mp hx] at hu hq
          exact absurd ⟨hu.symm.trans huser, hq.symm.trans hproduct⟩ hne
      · rintro ⟨x, hx, hu, hq⟩
        refine ⟨x, ?_, hu, hq⟩
        rw [hs']
        exact List.mem_append_left _ hx
      · -- it was not there
        obtain ⟨x, hx, hu, hq⟩ := h.mpr rfl
        refine absurd ?_ (List.any_eq_false.mp hkey.free x hx)
        rw [Bool.and_eq_true, beq_iff_eq, beq_iff_eq]
        exact ⟨hu, hq⟩
  | removed pks hpks =>
      subst hpks
      rw [removeFavorites_eq hI.favoriteKeys] at hs'
      refine ⟨⟨?_, fun h => nomatch h⟩, fun u q hne => ⟨?_, ?_⟩, fun h => ?_⟩
      · rintro ⟨x, hx, hu, hq⟩
        rw [hs'] at hx
        have hx := (List.mem_filter.mp hx).2
        simp [hu, hq] at hx
      · rintro ⟨x, hx, hu, hq⟩
        rw [hs'] at hx
        exact ⟨x, (List.mem_filter.mp hx).1, hu, hq⟩
      · rintro ⟨x, hx, hu, hq⟩
        refine ⟨x, ?_, hu, hq⟩
        rw [hs']
        refine List.mem_filter.mpr ⟨hx, ?_⟩
        rw [Bool.not_eq_true', ← Bool.not_eq_true, Bool.and_eq_true, beq_iff_eq, beq_iff_eq]
        exact fun h => hne ⟨hu.symm.trans h.1, hq.symm.trans h.2⟩
      · rw [hs', List.filter_eq_self]
        intro x hx
        rw [Bool.not_eq_true', ← Bool.not_eq_true, Bool.and_eq_true, beq_iff_eq, beq_iff_eq]
        exact fun hset => nomatch h.mp ⟨x, hx, hset⟩

/-- A `DELETE` of favorites of a locked user takes away all of them. -/
theorem body_removeFavorites (hE : EngagementAbides p floor Γ) {user : Nat} {q : Favorite → Bool}
    (hq : ∀ r, q r = true → r.user = user) (hl : .row .user user ∈ w.sess.held)
    (hsame : ∀ s, (w.sess.pend s).favorites = s.favorites) :
    Body Γ (deleteRows .favorite (·.favorites) (·.pk) q removeFavorites) w (fun _ w' =>
      w'.sess.pend = fun s =>
        removeFavorites ((w'.db.favorites.filter q).map (·.pk)) (w.sess.pend s)) anyError := by
  have hΓ := hE.abides.lawful
  have hby : ∀ s, s.favorites.filter q = (favoritesBy user s).filter q := fun s => by
    rw [favoritesBy, List.filter_filter]
    refine List.filter_congr fun r _ => ?_
    cases hr : q r with
    | false => exact (Bool.false_and _).symm
    | true => rw [Bool.true_and, hq r hr, beq_self_eq_true]
  refine Body.look hΓ (look_fetch anyError_faults _) fun pks w1 h1 hpks => ?_
  refine Body.look hΓ (Look.acquireAll hΓ anyError_faults _) fun _ w2 h2 _ => ?_
  refine (Body.write hΓ anyError_faults fun s => hE.abides.leave _ _ _
    respects_removeFavorites).mono fun _ w3 h3 hp3 => ?_
  have hpks' : pks = (w3.db.favorites.filter q).map (·.pk) := by
    rw [h1.view] at hpks
    have hread : pks = ((w.sess.pend w1.db).favorites.filter q).map (·.pk) := hpks
    rw [hread, hsame, hby, hby,
      hE.user (h2.toNear.trans hΓ h3.toNear) (h1.held hl)]
  rw [hp3, (h1.trans hΓ h2).pend, ← hpks']

/-- **SPECIFICATION** of `get_or_create`: one favorite, found or inserted. -/
theorem body_addFavoriteOnce (hE : EngagementAbides p floor Γ) {user : Nat}
    (hpend : w.sess.pend = id) (hopen : w.sess.frames ≠ [])
    (hl : .row .user user ∈ w.sess.held) :
    Body Γ (addFavoriteOnce user n) w
      (fun _ w' => FavoriteEnd user n w'.sess.held w'.db true w'.sess.pend) anyError := by
  have hΓ := hE.abides.lawful
  refine Body.bind (P := fun _ w' => FavoriteEnd user n w'.sess.held w'.db true w'.sess.pend) hΓ
    (body_getOrCreate hΓ anyError_faults hopen (fun w1 h1 => ?_) fun w1 w2 h1 he => ?_)
    fun _ _ _ h => Body.ret hΓ h
  · refine (look_fetch anyError_faults _).mono fun r w2 h2 hr a ha => ?_
    have hpend2 : w2.sess.pend = id := h2.pend.trans (h1.pend.trans hpend)
    rw [ha, view_of_id hpend2] at hr
    have hkey := List.find?_some hr.symm
    rw [Bool.and_eq_true, beq_iff_eq, beq_iff_eq] at hkey
    rw [hpend2]
    exact .found a (List.mem_of_find?_eq_some hr.symm) hkey.1 hkey.2
  · refine Body.look hΓ Look.fresh fun k w3 h3 _ => ?_
    have hpend3 : w3.sess.pend = id :=
      h3.pend.trans (he.still.pend.trans (h1.pend.trans hpend))
    have hl3 : .row .user user ∈ w3.sess.held := h3.held (he.still.held (h1.held hl))
    refine Body.bind hΓ (body_insertRow hΓ anyError_faults trivial fun held hsub hkeys s =>
      hE.abides.leave _ _ _ (respects_addFavorite (hsub hl3) (hkeys _ List.mem_cons_self)
        (hkeys _ (List.mem_cons_of_mem _ List.mem_cons_self)))) fun _ w4 _ hins =>
      Body.ret hΓ fun w5 he5 => ?_
    have hview : ∀ {i : Index}, ∀ s, i.present (w3.sess.pend s) = false → i.present s = false := by
      rw [hpend3]
      exact fun _ h => h
    have hsettled : ∀ {i : Index}, i ∈ [Index.pk .favorite k, .favorite user n] →
        Free w5.release.sess.held w5.release.db i := fun hi =>
      (Settled.release hE.abides (hins.settled hE.abides hi hview) he5).toFree
    have hpend5 : w5.release.sess.pend = addFavorite { pk := k, user := user, product := n } := by
      refine he5.still.pend.trans ?_
      rw [hins.pend, hpend3]
      rfl
    rw [hpend5]
    exact .added _ rfl rfl (hsettled List.mem_cons_self)
      (hsettled (List.mem_cons_of_mem _ List.mem_cons_self))

/-- What `set_favorite` is about to commit. -/
structure SetEnd (floor : Nat → Nat) (user n : Nat) (active : Bool) (held : List Lock) (s : Store)
    (g : Store → Store) : Prop where
  lock : .row .user user ∈ held
  counted : Tallied n (floor n) held s g
  pending : Pending g
  favorites : ∃ f, FavoriteEnd user n held s active f ∧ ∀ s, OnlyMetric n (f s) (g s)

/-- The whole command, as long as its locks are held. -/
theorem SetEnd.near (hE : EngagementAbides p floor Γ) {user : Nat} {active : Bool}
    (h : SetEnd floor user n active w.sess.held w.db g) (hn : Near Γ w w') :
    SetEnd floor user n active w'.sess.held w'.db g := by
  obtain ⟨f, hf, honly⟩ := h.favorites
  exact ⟨hn.held h.lock, h.counted.near hE h.pending hn, h.pending, f, hf.near hE h.lock hn, honly⟩

theorem OnlyMetric.favorites (h : OnlyMetric n s s') : s'.favorites = s.favorites := by
  rw [h.1]

/-- What the command commits. -/
theorem SetEnd.commit {user : Nat} {active : Bool} (h : SetEnd floor user n active held s g)
    (hI : EngagementInv floor s) :
    EngagementEnd floor [n] held s g ∧ FavoriteSet user n active s (g s) := by
  obtain ⟨f, hf, honly⟩ := h.favorites
  refine ⟨⟨h.pending, fun k hk => ?_, fun k hk => ?_, ?_⟩, hf.set hI (honly s).favorites⟩
  · rw [List.mem_singleton.mp hk]
    exact h.counted
  · rw [(honly s).2 k fun he => hk (List.mem_singleton.mpr he), metricsOf, hf.metrics]
    rfl
  · exact hf.change h.lock hI (honly s).favorites

/-- **SPECIFICATION** of `set_favorite`, up to its commit. -/
theorem body_setFavorite (hE : EngagementAbides p floor Γ) (user n : Nat) (active : Bool)
    (hI : EngagementInv floor w.db) (hpend : w.sess.pend = id) (hopen : w.sess.frames ≠ []) :
    Body Γ (setFavoriteBody user n active) w
      (fun _ w' => SetEnd floor user n active w'.sess.held w'.db w'.sess.pend) anyError := by
  have hΓ := hE.abides.lawful
  refine Body.look (P := fun (u : User) w' => u.pk = user ∧ .row .user user ∈ w'.sess.held) hΓ
    (Look.tryCatch (G := anyError) hΓ ((look_getForUpdate hΓ anyError_faults _ _ _ _ trivial).mono
      fun u w1 _ ⟨_, hu, hl⟩ => ?_) fun e w1 _ _ => ?_) fun u w1 h1 ⟨hpk, hl1⟩ => ?_
  · rw [Bool.and_eq_true, Bool.and_eq_true, beq_iff_eq] at hu
    exact ⟨hu.1.1, hu.1.1 ▸ hl⟩
  · split <;> exact Look.raise hΓ trivial
  refine Body.look hΓ (look_getForUpdate hΓ anyError_faults _ _ _ _ trivial) fun _ w2 h2 _ => ?_
  have h02 : Still Γ w w2 := h1.trans hΓ h2
  have hpend2 : w2.sess.pend = id := h02.pend.trans hpend
  have hopen2 : w2.sess.frames ≠ [] := by
    rw [h02.frames]
    exact hopen
  have hl2 : .row .user user ∈ w2.sess.held := h2.held hl1
  have hI2 := hE.inv h02.toNear hI
  rw [hpk]
  -- the favorite first, then the counts
  have hcount : ∀ {w3 : World Store Lock Obs}, Within Γ w2 w3 →
      FavoriteEnd user n w3.sess.held w3.db active w3.sess.pend →
      Body Γ (recomputeProductMetric n) w3
        (fun _ w' => SetEnd floor user n active w'.sess.held w'.db w'.sess.pend) anyError := by
    intro w3 h3 hend
    have hI3 := hE.inv h3.toNear hI2
    have hl3 : .row .user user ∈ w3.sess.held := h3.held hl2
    refine (body_recomputeProductMetric hE hI3 hend.pending (fun s => ?_) ?_).mono
      fun _ w4 h4 ⟨ht, hp4, honly⟩ => ?_
    · rw [metricsOf, hend.metrics]
      rfl
    · rw [h3.frames]
      exact hopen2
    · obtain ⟨m, hm, hfavorites, hlow, hrest⟩ := ht.metric
      exact ⟨h4.held hl3, ⟨ht.lock, m, hm, hfavorites, Nat.le_trans (hI3.floor n) hlow, hrest⟩,
        hp4, w3.sess.pend, hend.near hE hl3 h4.toNear, honly⟩
  cases active with
  | true => exact Body.bind hΓ (body_addFavoriteOnce hE hpend2 hopen2 hl2) fun _ w3 h3 => hcount h3
  | false =>
      refine Body.bind hΓ (body_removeFavorites hE (fun r hr => ?_) hl2 fun s => ?_)
        fun _ w3 h3 hp3 => hcount h3 ?_
      · rw [Bool.and_eq_true, beq_iff_eq] at hr
        exact hr.1
      · rw [hpend2]
        rfl
      · rw [hp3, hpend2]
        exact .removed _ rfl

/-! ## `record_product_view` -/

/-- A commit of `record_product_view`: it adds at most one view of the product. -/
def ViewEffect (digest : Nat → Nat → String → String) (n : Nat) (s s' : Store) : Prop :=
  s'.favorites = s.favorites ∧ (s'.productViews = s.productViews ∨
    ∃ viewedOn sessionKey, s'.productViews =
      s.productViews ++ [⟨n, viewedOn, digest n viewedOn sessionKey⟩])

/-- A view takes the key of its product, day and visitor. -/
theorem respects_addProductView {r : ProductView}
    (hkey : .unique (.productView r.product r.viewedOn r.viewerDigest) ∈ held) :
    Respects p held s (addProductView r s) := by
  refine Respects.of_unguarded .productView (fun t' => by cases t' <;> decide) (by decide)
    ?_ { Keeps.refl s with } ?_
  · intro t ht
    cases t <;> first | rfl | exact absurd rfl ht
  · intro i hi ho h
    cases i with
    | pk t n =>
        cases hi
        exact h
    | productView n d v =>
        refine index_of_append ho (fun hq => ?_) h
        rw [Bool.and_eq_true, Bool.and_eq_true, beq_iff_eq, beq_iff_eq, beq_iff_eq] at hq
        rw [← hq.1.1, ← hq.1.2, ← hq.2]
        exact hkey
    | _ => exact nomatch hi

/-- A view is added without a lock. -/
theorem engagementRespects_addProductView (r : ProductView) :
    EngagementRespects held s (addProductView r s) :=
  engagementRespects_of (List.prefix_append _ _) (fun _ _ => rfl) fun _ _ => ⟨rfl, rfl⟩

/-- **VIEW**: a view that was not there. -/
theorem engagementStep_addProductView (hI : EngagementInv floor s) {r : ProductView}
    (hfree : Index.present (.productView r.product r.viewedOn r.viewerDigest) s = false) :
    EngagementStep floor s (addProductView r s) := by
  have hprefix : s.productViews <+: (addProductView r s).productViews := List.prefix_append _ _
  refine ⟨⟨hI.favoriteKeys, hI.favorites, ?_, hI.metrics, fun n m hm => ?_, fun n => ?_⟩, hprefix,
    fun n => .same rfl rfl⟩
  · show (s.productViews ++ [r]).Nodup
    refine List.nodup_append'.mpr ⟨hI.views, List.nodup_singleton _, fun x hx hr => ?_⟩
    rw [List.mem_singleton.mp hr] at hx
    have hnot := List.any_eq_false.mp hfree r hx
    simp at hnot
  · exact Nat.le_trans (hI.below n m hm) (length_viewsOf_le hprefix)
  · exact Nat.le_trans (hI.floor n) (length_viewsOf_le hprefix)

/-- A query between two transactions. -/
theorem wp_idleFetch {α : Type} {q : Store → α} (hi : Idle w) :
    wp Γ (fetch q) (fun _ w' => Idle w' ∧ Env Γ w w') w :=
  fun _ he => ⟨⟨hi.env he, he⟩, fun _ _ => ⟨hi.env he, he⟩⟩

theorem wp_idleFresh (hi : Idle w) :
    wp Γ Prog.fresh (fun r w' => Idle w' ∧ Env Γ w w' ∧ ∃ n, r = .ok n) w :=
  fun _ he n => ⟨hi.env he, he, n, rfl⟩

/-- The commits of a service that the session may make. -/
def MayCommit (floor : Nat → Nat) (Γ : Ctx Store Lock Exn Obs) (effect : Store → Store → Prop) :
    Prop :=
  ∀ held s s', Γ.leave held s s' → EngagementInv floor s → EngagementRespects held s s' →
    EngagementStep floor s s' → effect s s' → Γ.guar held s s'

/-- The views that the session has committed are all still there, and what must be kept of
    the store `s` is. -/
structure ViewsKept (floor : Nat → Nat) (s : Store) (w : World Store Lock Obs) : Prop where
  idle : Idle w
  inv : EngagementInv floor w.db
  keeps : Keeps s w.db
  commits : ∀ e ∈ commitsOf w.sess.hist, e.2.productViews <+: w.db.productViews

/-- The views that were there stay, whatever others do. -/
theorem ViewsKept.env (hE : EngagementAbides p floor Γ) (h : ViewsKept floor s w)
    (he : Env Γ w w') : ViewsKept floor s w' := by
  refine ⟨h.idle.env he, hE.inv he.still.toNear h.inv,
    h.keeps.trans (hE.abides.keeps he.still.toNear), fun e hmem => ?_⟩
  rw [he.sess] at hmem
  exact (h.commits e hmem).trans (hE.views he.still.toNear)

/-- **SPECIFICATION** of the insertion of a view: it commits the view, or nothing at all. -/
theorem wp_recordViewRow (hE : EngagementAbides p floor Γ)
    {digest : Nat → Nat → String → String} (hmay : MayCommit floor Γ (ViewEffect digest n))
    (d : Nat)
    (key : String) (h : ViewsKept floor s w) (hnone : commitsOf w.sess.hist = []) :
    wp Γ (recordViewRow ⟨n, d, digest n d key⟩) (fun r w' => ViewsKept floor s w' ∧
      (∀ e, r = .error e → commitsOf w'.sess.hist = [])) w := by
  have hΓ := hE.abides.lawful
  have hfind : ∀ {w1 : World Store Lock Obs} {α : Type} {q : Store → α}, ViewsKept floor s w1 →
      commitsOf w1.sess.hist = [] →
      wp Γ (fetch q) (fun _ w2 => ViewsKept floor s w2 ∧ commitsOf w2.sess.hist = []) w1 :=
    fun h1 hc => wp_mono (fun _ w2 ⟨_, he⟩ => ⟨h1.env hE he, by rw [he.sess]; exact hc⟩)
      (wp_idleFetch h1.idle)
  refine wp_bind (wp_mono (Q := fun r w' => ViewsKept floor s w' ∧
    (∀ e, r = .error e → commitsOf w'.sess.hist = [])) ?_ ?_)
  · rintro (e | r) w1 ⟨h1, hc⟩
    · exact ⟨h1, fun _ _ => hc e rfl⟩
    · exact ⟨h1, fun _ he => nomatch he⟩
  refine wp_bind (wp_mono ?_ (hfind h hnone))
  rintro (e | found) w1 ⟨h1, hc1⟩
  · exact ⟨h1, fun _ _ => hc1⟩
  -- a view of the same day is there already: nothing is written
  cases found with
  | some r => exact ⟨h1, fun _ he => nomatch he⟩
  | none =>
      refine wp_tryCatch (wp_bind (wp_transaction (F := anyError)
        (P := fun w' _ w2 => Inserted Γ w'.begin [.productView n d (digest n d key)]
          (addProductView ⟨n, d, digest n d key⟩) w2) hΓ h1.idle (fun w2 he => ?_)
        anyError_faults (fun e w3 _ hidle hc hdb => ?_) ?_))
      · exact Body.bind hΓ (body_insertRow hΓ anyError_faults trivial fun held _ hkeys s =>
          hE.abides.leave _ _ _ (respects_addProductView (hkeys _ List.mem_cons_self)))
          fun _ w3 _ hins => Body.ret hΓ hins
      · -- the insertion failed, and an `IntegrityError` is looked up again
        have hc3 : commitsOf w3.sess.hist = [] := hc.trans hc1
        have h3 : ViewsKept floor s w3 := by
          refine ⟨hidle, hE.steady _ _ _ hdb h1.inv,
            h1.keeps.trans (hE.abides.rely _ _ _ hdb).1, fun e he => ?_⟩
          rw [hc3] at he
          exact nomatch he
        show wp Γ _ _ w3
        split
        · refine wp_bind (wp_mono ?_ (hfind h3 hc3))
          rintro (e | found) w4 ⟨h4, hc4⟩
          · exact ⟨h4, fun _ _ => hc4⟩
          · cases found with
            | some r => exact ⟨h4, fun _ he => nomatch he⟩
            | none => exact ⟨h4, fun _ _ => hc4⟩
        · exact ⟨h3, fun _ _ => hc3⟩
      · -- the view is committed
        intro w2 _ w3 w4 he hw hins he4 hleave
        refine ⟨fun _ => ?_, fun _ _ => trivial⟩
        have hpend2 : w2.begin.sess.pend = id := begin_pend_id h1.idle he
        have hI2 : EngagementInv floor w2.db := hE.inv he.still.toNear h1.inv
        have hI3 : EngagementInv floor w3.db := hE.inv (w := w2.begin) hw.toNear hI2
        have hI4 : EngagementInv floor w4.db := hE.inv he4.still.toNear hI3
        have hfree := (hins.settled hE.abides List.mem_cons_self fun s hs => by
          rw [hpend2] at hs
          exact hs).near hE.abides he4.still.toNear
        have hview : w4.view = addProductView ⟨n, d, digest n d key⟩ w4.db := by
          rw [World.view, he4.sess, hins.pend, hpend2]
          rfl
        have hstep := engagementStep_addProductView (r := ⟨n, d, digest n d key⟩) hI4 hfree.free
        rw [hview] at hleave
        have hK2 : Keeps s w2.db := h1.keeps.trans (hE.abides.keeps he.still.toNear)
        have hK3 : Keeps s w3.db := hK2.trans (hE.abides.keeps (w := w2.begin) hw.toNear)
        have hK4 : Keeps s w4.db := hK3.trans (hE.abides.keeps he4.still.toNear)
        refine ⟨?_, ⟨publish_idle w4, ?_, ?_, fun e hmem => ?_⟩, by rintro _ ⟨⟩⟩
        · rw [hview]
          exact hmay _ _ _ hleave hI4 (engagementRespects_addProductView _) hstep
            ⟨rfl, Or.inr ⟨d, key, rfl⟩⟩
        · show EngagementInv floor w4.view
          rw [hview]
          exact hstep.inv
        · show Keeps s w4.view
          rw [hview]
          exact hK4.trans { Keeps.refl _ with }
        · have hc4 : commitsOf w4.sess.hist = [] := (commits_transaction he hw he4).trans hc1
          rcases List.mem_cons.mp hmem with rfl | hmem
          · exact List.prefix_rfl
          · rw [hc4] at hmem
            exact nomatch hmem

/-- The product is still there, once it is there. -/
def Stocked (n : Nat) (s : Store) : Prop := ∃ r ∈ s.products, r.pk = n

/-- A product that is there stays there. -/
theorem Stocked.keeps (h : Stocked n s) (hk : Keeps s s') : Stocked n s' := by
  obtain ⟨r, hr, rfl⟩ := h
  obtain ⟨x, hx, hid⟩ := List.mem_map.mp
    (hk.products.subset (List.mem_map_of_mem (f := Product.identity) hr))
  exact ⟨x, hx, congrArg Prod.fst hid⟩

/-- A committed view is counted. -/
def Noted (n : Nat) (w : World Store Lock Obs) : Prop :=
  ∀ e ∈ commitsOf w.sess.hist, viewsOf n e.2 ≠ viewsOf n e.1 →
    AtLeast n (viewsOf n e.2).length w.db

/-- **TRANSACTION** of `recompute_product_metric`: afterwards all the views are counted that
    were there before it. -/
theorem wp_recomputeProductMetric (hE : EngagementAbides p floor Γ)
    {digest : Nat → Nat → String → String} (hmay : MayCommit floor Γ (ViewEffect digest n))
    (h : ViewsKept floor s w) :
    wp Γ (recomputeProductMetric n) (fun r w' => ViewsKept floor s w' ∧
      (∀ m, r = .ok m → Counted floor n w'.db ∧ Noted n w') ∧
      ∀ e, r = .error e → Stocked n s → Γ.fault e) w := by
  have hΓ := hE.abides.lawful
  refine wp_transaction (F := fun e => Stocked n s → Γ.fault e)
    (P := fun w1 _ w2 => Tallied n (viewsOf n w1.db).length w2.sess.held w2.db w2.sess.pend ∧
      Pending w2.sess.pend ∧ ∀ s, OnlyMetric n s (w2.sess.pend s)) hΓ h.idle (fun w1 he => ?_)
    (fun _ he _ => he) (fun e w3 hF hidle hc hdb => ?_) ?_
  · -- the body, whose product is found if it was there before the call
    have hpend : w1.begin.sess.pend = id := begin_pend_id h.idle he
    have hI1 : EngagementInv floor w1.db := hE.inv he.still.toNear h.inv
    refine (body_recomputeProductMetricBody (w := w1.begin) hE (fun _ he _ => he) hI1
      (hpend ▸ Pending.id) (fun s => ?_) (begin_open w1) ?_).mono fun _ w2 _ ht => ?_
    · rw [hpend]
      rfl
    · refine Look.mono (P := fun r w2 => r ∈ w2.view.products ∧ (r.pk == n) = true ∧
        .row .product r.pk ∈ w2.sess.held) ?_ fun r w2 _ ⟨_, hpk, hl⟩ => ?_
      · by_cases hstock : Stocked n s
        · refine look_getForUpdate_found hΓ (fun _ he _ => he) _ _ _ _ n fun w2 h2 => ?_
          have hkeeps : Keeps w1.db w2.db := hE.abides.keeps (w := w1.begin) h2.toNear
          have hK1 : Keeps s w1.db := h.keeps.trans (hE.abides.keeps he.still.toNear)
          obtain ⟨r, hr, hpk⟩ := hstock.keeps (hK1.trans hkeeps)
          refine ⟨r, ?_, beq_iff_eq.mpr hpk, hpk⟩
          rw [view_of_id (h2.pend.trans hpend)]
          exact hr
        · exact look_getForUpdate hΓ (fun _ he _ => he) _ _ _ _ fun hs => absurd hs hstock
      · rw [beq_iff_eq] at hpk
        exact ⟨hpk, hpk ▸ hl⟩
    · rw [hpend] at ht
      exact ht
  · -- rolled back
    refine ⟨⟨hidle, hE.steady _ _ _ hdb h.inv, h.keeps.trans (hE.abides.rely _ _ _ hdb).1,
      fun e' hmem => ?_⟩,
      ⟨(fun _ he => nomatch he), fun e' he => ?_⟩⟩
    · rw [hc] at hmem
      exact (h.commits e' hmem).trans (hE.rely _ _ _ hdb).1
    · cases he
      exact hF
  · -- committed: between the body and the commit only others have moved
    intro w1 m w2 w3 he hw ⟨ht, hp2, honly⟩ he3 hleave
    have hI1 : EngagementInv floor w1.db := hE.inv he.still.toNear h.inv
    have hI2 : EngagementInv floor w2.db := hE.inv (w := w1.begin) hw.toNear hI1
    have hI3 : EngagementInv floor w3.db := hE.inv he3.still.toNear hI2
    have hp3 : w3.sess.pend = w2.sess.pend := he3.still.pend
    have ht3 := ht.near hE hp2 he3.still.toNear
    have hview : w3.view = w2.sess.pend w3.db := by rw [World.view, hp3]
    obtain ⟨m', hm', hfavorites, hlow, hrest⟩ := ht3.metric
    have hsame : ∀ s, MetricsOnly s (w2.sess.pend s) := fun s => (honly s).1
    have hend : EngagementEnd floor [n] w3.sess.held w3.db (w2.sess.pend) := by
      refine ⟨hp2, fun k hk => ?_, fun k hk => ?_, .kept ?_⟩
      · rw [List.mem_singleton.mp hk]
        exact ⟨ht3.lock, m', hm', hfavorites, Nat.le_trans (hI1.floor n) hlow, hrest⟩
      · exact (honly _).2 k fun heq => hk (List.mem_singleton.mpr heq)
      · exact (honly _).favorites
    have hc3 : commitsOf w3.sess.hist = commitsOf w.sess.hist := commits_transaction he hw he3
    have hpast : ∀ e ∈ commitsOf w.sess.hist, e.2.productViews <+: w1.db.productViews :=
      fun e hmem => (h.commits e hmem).trans (hE.views he.still.toNear)
    have hlater : w1.db.productViews <+: w3.view.productViews := by
      rw [hview, hp2.views]
      exact List.IsPrefix.trans (hE.views (w := w1.begin) hw.toNear) (hE.views he3.still.toNear)
    have hK1 : Keeps s w1.db := h.keeps.trans (hE.abides.keeps he.still.toNear)
    have hK2 : Keeps s w2.db := hK1.trans (hE.abides.keeps (w := w1.begin) hw.toNear)
    have hK3 : Keeps s w3.db := hK2.trans (hE.abides.keeps he3.still.toNear)
    refine ⟨fun _ => ⟨?_, ⟨publish_idle w3, ?_, ?_, ?_⟩, ?_, ?_⟩, fun e hd => ?_⟩
    · rw [hview] at hleave ⊢
      exact hmay _ _ _ hleave hI3 hend.respects (hend.step hI3)
        ⟨(honly _).favorites, Or.inl (hp2.views _)⟩
    · show EngagementInv floor w3.view
      rw [hview]
      exact (hend.step hI3).inv
    · show Keeps s w3.view
      rw [hview]
      refine hK3.trans ?_
      rw [hsame]
      exact { Keeps.refl _ with }
    · intro e hmem
      rcases List.mem_cons.mp hmem with rfl | hmem
      · exact List.prefix_rfl
      · rw [hc3] at hmem
        exact (hpast e hmem).trans hlater
    · rintro a -
      refine ⟨?_, fun e hmem hne => ?_⟩
      · show Counted floor n w3.view
        rw [hview]
        exact ⟨m', hm', hfavorites, Nat.le_trans (hI1.floor n) hlow⟩
      · show AtLeast n _ w3.view
        rcases List.mem_cons.mp hmem with rfl | hmem
        · refine absurd ?_ hne
          rw [viewsOf, hview, hp2.views]
          rfl
        · rw [hc3] at hmem
          rw [hview]
          exact ⟨m', hm' ▸ List.mem_cons_self,
            Nat.le_trans (length_viewsOf_le (hpast e hmem)) hlow⟩
    · rintro _ ⟨⟩
    · rw [hE.abides.deferred, hview, validateBalancedJournal_same] at hd
      · cases hd
      · rw [hsame]
      · rw [hsame]

theorem wp_freshViewsKept (hE : EngagementAbides p floor Γ) (h : ViewsKept floor s w) :
    wp Γ Prog.fresh (fun r w' => ViewsKept floor s w' ∧ Env Γ w w' ∧ ∃ k, r = .ok k) w :=
  wp_mono (fun _ _ ⟨_, he, hr⟩ => ⟨h.env hE he, he, hr⟩) (wp_idleFresh h.idle)

/-- The session of a visitor is found or made, and no row is written. -/
theorem wp_visitorSession (hE : EngagementAbides p floor Γ) (request : Visitor)
    (h : ViewsKept floor s w) :
    wp Γ (visitorSession request)
      (fun r w' => ViewsKept floor s w' ∧ Env Γ w w' ∧ ∃ key, r = .ok key) w := by
  rw [visitorSession]
  cases request.sessionKey with
  | some key => exact ⟨h, Env.refl hE.abides.lawful w, key, rfl⟩
  | none =>
      refine wp_bind (wp_mono ?_ (wp_freshViewsKept hE h))
      rintro _ w1 ⟨h1, he, newKey, rfl⟩
      exact ⟨h1, he, _, rfl⟩

/-- **SPECIFICATION** of `record_product_view`: on return the product is counted, and its own
    view too; a view that it leaves uncounted it leaves to a failure of the database. -/
theorem wp_recordProductView (hE : EngagementAbides p floor Γ)
    {digest : Nat → Nat → String → String} (request : Visitor) (product : Product)
    (hmay : MayCommit floor Γ (ViewEffect digest product.pk)) (h : ViewsKept floor s w)
    (hnone : commitsOf w.sess.hist = []) :
    wp Γ (recordProductView digest request product) (fun r w' =>
      (∀ m, r = .ok m → Counted floor product.pk w'.db ∧ Noted product.pk w') ∧
      ∀ e, r = .error e → commitsOf w'.sess.hist = [] ∨
        (Stocked product.pk s → Γ.fault e)) w := by
  have hcount : ∀ {w1 : World Store Lock Obs}, ViewsKept floor s w1 →
      wp Γ (recomputeProductMetric product.pk) (fun r w' =>
        (∀ m, r = .ok m → Counted floor product.pk w'.db ∧ Noted product.pk w') ∧
        ∀ e, r = .error e → commitsOf w'.sess.hist = [] ∨
          (Stocked product.pk s → Γ.fault e)) w1 :=
    fun h1 => wp_mono (fun _ _ ⟨_, hok, herr⟩ => ⟨hok, fun e he => Or.inr (herr e he)⟩)
      (wp_recomputeProductMetric hE hmay h1)
  rw [recordProductView]
  split
  · exact hcount h
  · refine wp_bind (wp_mono ?_ (wp_visitorSession hE request h))
    rintro _ w1 ⟨h1, he1, key, rfl⟩
    refine wp_bind (wp_mono ?_ (wp_freshViewsKept hE h1))
    rintro _ w2 ⟨h2, he2, now, rfl⟩
    have hc2 : commitsOf w2.sess.hist = [] := by rw [he2.sess, he1.sess, hnone]
    refine wp_bind (wp_mono ?_ (wp_recordViewRow hE hmay (utcDate now) key h2 hc2))
    rintro (e | _) w3 ⟨h3, hc3⟩
    · exact ⟨(fun _ he => nomatch he), fun _ _ => Or.inl (hc3 e rfl)⟩
    · exact hcount h3

end Market
