import Marketplace.EngagementSpecs
import Marketplace.TxnSchedule

/-! # Counts in every run

    Favorites and metrics are written under the lock of their product, so the count of the
    favorites is exact after every commit.  A view is inserted outside of the lock, and its
    request counts afterwards: as soon as the request that added the last view has
    returned, the count of the views is exact too. -/

namespace Market

open TxnProgram TxnInterleaving TxnLogic TxnProtection TxnSoundness TxnBody TxnFrames
  TxnInvariants TxnSchedule

variable {p : Platform} {Γ : Ctx Store Lock Exn Obs} {w w' : World Store Lock Obs}
  {s s' : Store} {n : Nat} {floor : Nat → Nat} {digest : Nat → Nat → String → String}

/-! ## The operations -/

inductive EngagementOp where
  | setFavorite (user product : Nat) (active : Bool)
  | recordView (request : Visitor) (product : Product)
  | withdraw (user : Nat) (password : String)

/-- What a commit keeps: the constraints, and what is known of the metrics. -/
structure EngagementOnward (floor : Nat → Nat) (s s' : Store) : Prop where
  inv : EngagementInv floor s → EngagementInv floor s'
  atLeast : ∀ n b, AtLeast n b s → AtLeast n b s'
  counted : ∀ n, Counted floor n s → Counted floor n s'

theorem engagementOnward_composes : Composes (EngagementOnward floor) where
  refl _ := ⟨fun h => h, fun _ _ h => h, fun _ h => h⟩
  trans _ _ _ h h' := ⟨fun hI => h'.inv (h.inv hI),
    fun n b hb => h'.atLeast n b (h.atLeast n b hb), fun n hc => h'.counted n (h.counted n hc)⟩

theorem EngagementStep.onward (h : EngagementStep floor s s') : EngagementOnward floor s s' :=
  ⟨fun _ => h.inv, fun n _ => (h.rows n).atLeast, fun n => (h.rows n).isCounted⟩

namespace EngagementOp

def run (digest : Nat → Nat → String → String) : EngagementOp → M Unit
  | .setFavorite user product active => do
      let _ ← Market.setFavorite user product active
      return ()
  | .recordView request product => do
      let _ ← recordProductView digest request product
      return ()
  | .withdraw user password => do
      let _ ← withdrawAccount user password
      return ()

/-- The product that the operation counts whenever it returns. -/
def product : EngagementOp → Option Nat
  | .setFavorite _ product _ => some product
  | .recordView _ product => some product.pk
  | .withdraw _ _ => none

/-- What a commit of the operation makes of favorites and views. -/
def effect (digest : Nat → Nat → String → String) : EngagementOp → Store → Store → Prop
  | .setFavorite user product active => FavoriteEffect user product active
  | .recordView _ product => ViewEffect digest product.pk
  | .withdraw user _ => FavoritesLeft user

/-- The context of a session that runs the operation. -/
def ctx (p : Platform) (floor : Nat → Nat) (digest : Nat → Nat → String → String)
    (op : EngagementOp) : Ctx Store Lock Exn Obs :=
  along (also (market p ⟨fun _ _ => True, fun _ s s' => EngagementInv floor s →
    EngagementStep floor s s' ∧ op.effect digest s s'⟩ (fun _ _ _ => True) fun _ _ _ => True)
    marketDb engagementDiscipline) (EngagementOnward floor)

theorem ctx_abides (op : EngagementOp) : EngagementAbides p floor (op.ctx p floor digest) := by
  have hA : Abides p (market p ⟨fun _ _ => True, fun _ s s' => EngagementInv floor s →
      EngagementStep floor s s' ∧ op.effect digest s s'⟩ (fun _ _ _ => True) fun _ _ _ => True) :=
    market_abides ⟨fun _ => trivial, fun _ _ _ _ _ => trivial⟩ fun _ _ => trivial
  refine ⟨⟨along_lawful (also_lawful hA.lawful _ engagementDiscipline_lawful)
    engagementOnward_composes, fun held s s' h => hA.rely held s s' h.1.1, hA.leave, hA.deferred⟩,
    fun _ _ _ h => h.1.2, fun _ _ _ h => h.2.inv⟩

theorem mayCommit (op : EngagementOp) :
    MayCommit floor (op.ctx p floor digest) (op.effect digest) :=
  fun _ _ _ hleave _ hrespects hstep heffect =>
    ⟨⟨⟨hleave.1, trivial, fun _ => ⟨hstep, heffect⟩⟩, hrespects⟩, hstep.onward⟩

/-- What an operation ends with that was started in the store `s`. -/
structure Post (floor : Nat → Nat) (digest : Nat → Nat → String → String) (s : Store)
    (op : EngagementOp) (r : Except Exn Unit) (w : World Store Lock Obs) : Prop where
  counted : ∀ n, op.product = some n → r = .ok () → Counted floor n w.db
  noted : ∀ n, op.product = some n → r = .ok () → Noted n w
  failed : ∀ n e, op.product = some n → r = .error e →
    (∃ x ∈ commitsOf w.sess.hist, viewsOf n x.2 ≠ viewsOf n x.1) → Stocked n s →
    ∃ sqlstate, e = .operationalError sqlstate
  favorites : ∀ user n active, op = .setFavorite user n active →
    ∀ e ∈ commitsOf w.sess.hist, FavoriteEffect user n active e.1 e.2

/-- **OPERATIONS**, each in its context. -/
theorem wp_run (op : EngagementOp) (hi : Idle w) (hI : EngagementInv floor w.db)
    (hnone : commitsOf w.sess.hist = []) :
    wp (op.ctx p floor digest) (op.run digest) (op.Post floor digest w.db) w := by
  have hE : EngagementAbides p floor (op.ctx p floor digest) := ctx_abides op
  cases op with
  | setFavorite user product active =>
      refine wp_bind (wp_mono ?_ (wp_setFavorite hE user product active (mayCommit _) hi hI hnone))
      have hsame : ∀ {w1 : World Store Lock Obs} {n}, (∀ e ∈ commitsOf w1.sess.hist,
          FavoriteEffect user product active e.1 e.2) →
          ∀ e ∈ commitsOf w1.sess.hist, viewsOf n e.2 = viewsOf n e.1 := fun h e he => by
        rw [viewsOf, (h e he).2]
        rfl
      rintro (e | m) w1 ⟨hcounted, hcommits⟩
      · refine ⟨fun _ _ h => (by cases h), fun _ _ h => (by cases h), fun _ _ _ _ hviews => ?_, ?_⟩
        · obtain ⟨x, hx, hne⟩ := hviews
          exact absurd (hsame hcommits x hx) hne
        · rintro _ _ _ ⟨⟩
          exact hcommits
      · refine ⟨?_, fun _ _ _ x hx hne => ?_, fun _ _ _ h => (by cases h), ?_⟩
        · rintro _ ⟨⟩ -
          exact hcounted m rfl
        · exact absurd (hsame hcommits x hx) hne
        · rintro _ _ _ ⟨⟩
          exact hcommits
  | recordView request product =>
      refine wp_bind (wp_mono ?_ (wp_recordProductView (s := w.db) hE request product (mayCommit _)
        ⟨hi, hI, Keeps.refl _, fun e he => by rw [hnone] at he; cases he⟩ hnone))
      rintro (e | m) w1 ⟨hok, herr⟩
      · refine ⟨fun _ _ h => (by cases h), fun _ _ h => (by cases h), ?_,
          fun _ _ _ h => (by cases h)⟩
        rintro _ _ ⟨⟩ ⟨⟩ ⟨x, hx, -⟩ hstock
        rcases herr e rfl with hc | hfault
        · rw [hc] at hx
          cases hx
        · exact hfault hstock
      · refine ⟨?_, ?_, fun _ _ _ h => (by cases h), fun _ _ _ h => (by cases h)⟩
        · rintro _ ⟨⟩ -
          exact (hok m rfl).1
        · rintro _ ⟨⟩ -
          exact (hok m rfl).2
  | withdraw user password =>
      refine wp_bind (wp_mono ?_ (wp_withdrawAccount_counts hE user password (mayCommit _) hi hI))
      rintro (e | r) w1 -
      all_goals
        exact ⟨fun _ h => (by cases h), fun _ h => (by cases h), fun _ _ h => (by cases h),
          fun _ _ _ h => (by cases h)⟩

end EngagementOp

/-! ## Every run -/

/-- A view of the product has been committed. -/
def Viewed (n : Nat) (h : List (Event Store Obs)) : Prop :=
  ∃ e ∈ commitsOf h, viewsOf n e.2 ≠ viewsOf n e.1

/-- Only a request for the product adds views of it. -/
theorem EngagementOp.product_of_viewed {op : EngagementOp} (h : op.effect digest s s')
    (hne : viewsOf n s' ≠ viewsOf n s) : op.product = some n := by
  cases op with
  | setFavorite user product active =>
      refine absurd ?_ hne
      rw [viewsOf, h.2]
      rfl
  | recordView request product =>
      by_contra hproduct
      refine hne ?_
      rcases h.2 with hviews | ⟨d, key, hviews⟩
      · rw [viewsOf, hviews]
        rfl
      · have hother : (product.pk == n) = false :=
          beq_eq_false_iff_ne.mpr fun he => hproduct (congrArg some he)
        rw [viewsOf, hviews, List.filter_append]
        simp [hother, viewsOf]
  | withdraw user password =>
      refine absurd ?_ hne
      rw [viewsOf, h.1]
      rfl

/-- The metric of the product has the numbers of its favorites and views. -/
def Exact (n : Nat) (s : Store) : Prop :=
  ∃ m, metricsOf n s = [m] ∧ m.favoriteCount = (favoritesOf n s).length ∧
    m.viewCount = (viewsOf n s).length

/-- The same favorites, and as many of each product. -/
def SameFavorites (s s' : Store) : Prop :=
  (∀ u q, IsFavorite u q s ↔ IsFavorite u q s') ∧
    ∀ q, (favoritesOf q s).length = (favoritesOf q s').length

/-- Favorites are counted by user. -/
theorem sameFavorites_of (h : EngagementInv floor s) (h' : EngagementInv floor s')
    (hsame : ∀ u q, IsFavorite u q s ↔ IsFavorite u q s') : SameFavorites s s' := by
  refine ⟨hsame, fun q => ?_⟩
  have hperm : (s.favorites.map fun r => (r.user, r.product)).Perm
      (s'.favorites.map fun r => (r.user, r.product)) := by
    refine (List.perm_ext_iff_of_nodup h.favorites h'.favorites).mpr fun ⟨u, k⟩ => ?_
    have hiff : ∀ {d : Store}, (u, k) ∈ d.favorites.map (fun r => (r.user, r.product)) ↔
        IsFavorite u k d := by
      simp [IsFavorite]
    rw [hiff, hiff]
    exact hsame u k
  have hcount : ∀ d : Store, (favoritesOf q d).length =
      (d.favorites.map fun r => (r.user, r.product)).countP (·.2 == q) := fun d => by
    rw [List.countP_map, favoritesOf, ← List.countP_eq_length_filter]
    rfl
  rw [hcount, hcount, hperm.countP_eq]

section Runs

variable {ι : Type} [DecidableEq ι] {ops : ι → EngagementOp} {now : Time}
  {c c' : Config ι Store Lock Exn Obs Unit} {i j : ι}

omit [DecidableEq ι] in
/-- The operations make no use of the platform: any will do. -/
theorem engagement_fits (floor : Nat → Nat) (digest : Nat → Nat → String → String)
    (ops : ι → EngagementOp) :
    Fits (postgres fun _ _ => False) (fun i => (ops i).ctx plainPlatform floor digest) :=
  fits_along (fits_also (market_fits _ _ (fun _ => ⟨fun _ => trivial, fun _ _ _ _ _ => trivial⟩)
    _ _) engagementDiscipline_lawful fun _ _ h => False.elim h) engagementOnward_composes
    fun _ _ h => False.elim h

omit [DecidableEq ι] in
theorem engagement_given :
    AllSee (fun i => ((ops i).ctx plainPlatform floor digest).given) c := fun _ _ _ _ _ => trivial

section Started

variable (h : EngagementInv floor s)
include h

omit [DecidableEq ι] in
theorem engagement_supported : Supported (fun i => (ops i).ctx plainPlatform floor digest)
    (fun i => (ops i).Post floor digest s) (Config.start s now fun i => (ops i).run digest) :=
  supported_start (engagement_fits floor digest ops).lawful fun i =>
    (ops i).wp_run (w := ⟨s, now, {}⟩) ⟨rfl, rfl, rfl⟩ h rfl

/-- **RUN**: from one store to a later one. -/
theorem engagement_onward (hr : Reached s now (fun i => (ops i).run digest) c)
    (hr' : Reaches (postgres fun _ _ => False) c c') : EngagementOnward floor c.db c'.db :=
  run_onward (J := EngagementOnward floor c.db) (engagement_fits floor digest ops)
    (engagement_supported h) (fun _ _ _ h => False.elim h)
    (fun _ _ _ _ hj hg => engagementOnward_composes.trans _ _ _ hj hg.2) hr hr' engagement_given
    (engagementOnward_composes.refl _)

theorem engagementInv_reached (hr : Reached s now (fun i => (ops i).run digest) c) :
    EngagementInv floor c.db :=
  (engagement_onward h (Reaches.refl _ _) hr).inv h

/-- **RUN**: a commit of a session. -/
theorem engagement_commit (hr : Reached s now (fun i => (ops i).run digest) c)
    {e : Store × Store} (he : e ∈ commitsOf (c.sess i).hist) :
    (ops i).effect digest e.1 e.2 ∧ EngagementStep floor e.1 e.2 ∧
      EngagementInv floor e.1 ∧ EngagementOnward floor e.2 c.db := by
  obtain ⟨d, d', hd, hs, hc, h1, h2⟩ := commit_reached hr rfl he
  have hd' : Reached s now (fun i => (ops i).run digest) d' := Reaches.step hd hs
  have hI := engagementInv_reached h hd
  rw [← h1, ← h2]
  have hon := engagement_onward h hd' hc
  rcases run_step (engagement_fits floor digest ops) (engagement_supported h) hd hs
    engagement_given with hdb | hg
  · -- what was committed changes nothing
    rw [hdb] at hon ⊢
    refine ⟨?_, engagementStep_refl hI, hI, hon⟩
    cases hop : ops i with
    | setFavorite user product active =>
        obtain ⟨r, w, hpost, hsuffix⟩ := run_history (engagement_fits floor digest ops)
          (engagement_supported h) hr (fun _ _ _ _ => trivial) i
        have heffect := hpost.favorites user product active hop e (mem_commitsOf_suffix hsuffix he)
        rw [← h1, ← h2, hdb] at heffect
        exact heffect
    | recordView request product => exact ⟨rfl, Or.inl rfl⟩
    | withdraw user password => exact ⟨rfl, Or.inl rfl⟩
  · obtain ⟨hstep, heffect⟩ := hg.1.1.2.2 hI
    exact ⟨heffect, hstep, hI, hon⟩

end Started

/-- **RUN**: the last view of a product was added by a session, or it was there before. -/
theorem last_view (hr : Reached s now (fun i => (ops i).run digest) c) :
    viewsOf n c.db = viewsOf n s ∨ ∃ i, ∃ e ∈ commitsOf (c.sess i).hist,
      viewsOf n e.2 ≠ viewsOf n e.1 ∧ viewsOf n e.2 = viewsOf n c.db := by
  induction hr with
  | refl => exact Or.inl rfl
  | @tail b c' hr hs ih =>
      obtain ⟨who, hs⟩ := hs
      have hold : viewsOf n c'.db = viewsOf n b.db → viewsOf n c'.db = viewsOf n s ∨
          ∃ i, ∃ e ∈ commitsOf (c'.sess i).hist,
            viewsOf n e.2 ≠ viewsOf n e.1 ∧ viewsOf n e.2 = viewsOf n c'.db := by
        intro hsame
        rcases ih with hnone | ⟨i, e, he, hne, hlast⟩
        · exact Or.inl (hsame.trans hnone)
        · refine Or.inr ⟨i, e, ?_, hne, hlast.trans hsame.symm⟩
          rcases commits_step hs i with ⟨-, hc⟩ | ⟨-, hc⟩
          · exact hc ▸ he
          · exact hc ▸ List.mem_cons_of_mem _ he
      cases who with
      | none =>
          cases hs with
          | tick _ t ht => exact hold rfl
          | env _ s hs => exact False.elim hs
      | some j =>
          rcases commits_step hs j with ⟨hdb, -⟩ | ⟨-, hc⟩
          · exact hold (congrArg (viewsOf n) (hdb rfl))
          · by_cases hsame : viewsOf n c'.db = viewsOf n b.db
            · exact hold hsame
            · exact Or.inr ⟨j, _, hc ▸ List.mem_cons_self, hsame, rfl⟩

/-- The operation of a session has added a view of the product, and has not returned. -/
def InProgress (n : Nat) (c : Config ι Store Lock Exn Obs Unit) (i : ι) : Prop :=
  Viewed n (c.sess i).hist ∧ c.prog i ≠ Prog.ofAnswer (.ok ())

/-- Some operation on the product has returned, or has changed its favorites or views. -/
def Touched (ops : ι → EngagementOp) (n : Nat) (c : Config ι Store Lock Exn Obs Unit) : Prop :=
  ∃ i, (c.prog i = Prog.ofAnswer (.ok ()) ∧ (ops i).product = some n) ∨
    ∃ e ∈ commitsOf (c.sess i).hist,
      favoritesOf n e.2 ≠ favoritesOf n e.1 ∨ viewsOf n e.2 ≠ viewsOf n e.1

section Started

variable (h : EngagementInv floor s)
include h

/-- **RUN**: an operation that has returned. -/
theorem engagement_returned (hr : Reached s now (fun i => (ops i).run digest) c)
    (hok : c.prog i = Prog.ofAnswer (.ok ())) (hproduct : (ops i).product = some n) :
    Counted floor n c.db ∧ Noted n (c.world i) := by
  obtain ⟨w, he, hpost⟩ := run_ended (engagement_fits floor digest ops) (engagement_supported h)
    hr engagement_given hok
  have hon : EngagementOnward floor w.db c.db := he.db.2
  refine ⟨hon.counted n (hpost.counted n hproduct rfl), fun e hmem hne => ?_⟩
  rw [he.sess] at hmem
  exact hon.atLeast n _ (hpost.noted n hproduct rfl e hmem hne)

/-- **RUN**: a product that has been touched is counted, if no view is still to be counted. -/
theorem counted_of_touched (hr : Reached s now (fun i => (ops i).run digest) c)
    (ht : Touched ops n c) (hrest : ∀ i, ¬ InProgress n c i) : Counted floor n c.db := by
  obtain ⟨i, ⟨hok, hproduct⟩ | ⟨e, he, hchange⟩⟩ := ht
  · exact (engagement_returned h hr hok hproduct).1
  obtain ⟨heffect, hstep, -, hon⟩ := engagement_commit h hr he
  rcases hchange with hfavorites | hviews
  · cases hstep.rows n with
    | same hsame => exact absurd hsame hfavorites
    | counted m hm hcount hfloor => exact hon.counted n ⟨m, hm, hcount, hfloor⟩
  · have hok : c.prog i = Prog.ofAnswer (.ok ()) := by
      by_contra hne
      exact hrest i ⟨⟨e, he, hviews⟩, hne⟩
    exact (engagement_returned h hr hok (EngagementOp.product_of_viewed heffect hviews)).1

end Started

/-- **RUN**: the last count of a product is the count of all its views. -/
theorem exact_of_touched (h : EngagementInv (fun n => (viewsOf n s).length) s)
    (hr : Reached s now (fun i => (ops i).run digest) c) (ht : Touched ops n c)
    (hrest : ∀ i, ¬ InProgress n c i) : Exact n c.db := by
  obtain ⟨m, hm, hfavorites, hfloor⟩ := counted_of_touched h hr ht hrest
  have hmem : m ∈ metricsOf n c.db := hm ▸ List.mem_cons_self
  refine ⟨m, hm, hfavorites, Nat.le_antisymm ((engagementInv_reached h hr).below n m hmem) ?_⟩
  rcases last_view hr with hnone | ⟨i, e, he, hne, hlast⟩
  · rw [hnone]
    exact hfloor
  · -- the request that added the last view has counted it
    have hok : c.prog i = Prog.ofAnswer (.ok ()) := by
      by_contra hrun
      exact hrest i ⟨⟨e, he, hne⟩, hrun⟩
    have heffect := (engagement_commit h hr he).1
    have hproduct := EngagementOp.product_of_viewed heffect hne
    obtain ⟨m', hm', hle⟩ := (engagement_returned h hr hok hproduct).2 e he hne
    rw [show (c.world i).db = c.db from rfl, hm] at hm'
    rw [← hlast, ← List.mem_singleton.mp hm']
    exact hle

end Runs

/-- In some run the session commits this. -/
def CommitsIn {ι : Type} [DecidableEq ι] (digest : Nat → Nat → String → String)
    (ops : ι → EngagementOp) (s : Store) (now : Time) (i : ι) (t t' : Store) : Prop :=
  ∃ c, Reached s now (fun i => (ops i).run digest) c ∧ (t, t') ∈ commitsOf (c.sess i).hist

/-- The counts, said of one configuration of a run. -/
structure ExactAtRest {ι : Type} [DecidableEq ι] (digest : Nat → Nat → String → String)
    (ops : ι → EngagementOp) (s : Store) (now : Time)
    (c : Config ι Store Lock Exn Obs Unit) : Prop where
  /-- The metric of a product that has been touched is exact when nobody works on it. -/
  exact : ∀ n, Touched ops n c → (∀ i, ¬ InProgress n c i) → Exact n c.db
  /-- Who has added a view fails to count it only if the database fails. -/
  failed : ∀ i n e, c.prog i = Prog.ofAnswer (.error e) → Viewed n (c.sess i).hist →
    Stocked n s → ∃ sqlstate, e = .operationalError sqlstate
  /-- There is one view of a product for each day and session, -/
  once : ∀ n d key, ((viewsOf n c.db).filter fun r =>
    r.viewedOn == d && r.viewerDigest == digest n d key).length ≤ 1
  /-- and every commit adds one at most. -/
  commits : ∀ i, ∀ e ∈ commitsOf (c.sess i).hist, (ops i).effect digest e.1 e.2
  /-- To set a favorite once more changes nothing. -/
  again : ∀ i j user n active, ops i = .setFavorite user n active →
    ops j = .setFavorite user n active → ∀ s1 s2 t t', (s1, s2) ∈ commitsOf (c.sess i).hist →
    (t, t') ∈ commitsOf (c.sess j).hist → (IsFavorite user n t ↔ IsFavorite user n s2) →
    t'.favorites = t.favorites
  /-- The order in which distinct favorites are set does not matter. -/
  commute : ∀ i j user n active user' n' active', ops i = .setFavorite user n active →
    ops j = .setFavorite user' n' active' → ¬ (user' = user ∧ n' = n) →
    ∀ s1 s2 s3 t2 t3, CommitsIn digest ops s now i s1 s2 → CommitsIn digest ops s now j s2 s3 →
    CommitsIn digest ops s now j s1 t2 → CommitsIn digest ops s now i t2 t3 →
    SameFavorites s3 t3

/-- What sets two favorites in one order or the other. -/
theorem FavoriteSet.commute {user n user' n' : Nat} {active active' : Bool} {t t' u u' : Store}
    (hne : ¬ (user' = user ∧ n' = n)) (h1 : FavoriteSet user n active s t)
    (h2 : FavoriteSet user' n' active' t t') (h3 : FavoriteSet user' n' active' s u)
    (h4 : FavoriteSet user n active u u') (v q : Nat) : IsFavorite v q t' ↔ IsFavorite v q u' := by
  have hne' : ¬ (user = user' ∧ n = n') := fun he => hne ⟨he.1.symm, he.2.symm⟩
  by_cases hv : v = user ∧ q = n
  · obtain ⟨rfl, rfl⟩ := hv
    rw [h2.others v q hne', h1.set, h4.set]
  · by_cases hv' : v = user' ∧ q = n'
    · obtain ⟨rfl, rfl⟩ := hv'
      rw [h2.set, h4.others v q hv, h3.set]
    · rw [h2.others v q hv', h1.others v q hv, h4.others v q hv, h3.others v q hv']

/-- **EXACT AT REST**: in every interleaving of commands to set favorites, requests that show a
    product, and withdrawals. -/
theorem exact_at_rest {ι : Type} [DecidableEq ι] {digest : Nat → Nat → String → String}
    {ops : ι → EngagementOp} {s : Store} {now : Time} {c : Config ι Store Lock Exn Obs Unit}
    (h : EngagementInv (fun n => (viewsOf n s).length) s)
    (hr : Reached s now (fun i => (ops i).run digest) c) : ExactAtRest digest ops s now c := by
  constructor
  case exact => exact fun n => exact_of_touched h hr
  case failed =>
    intro i n e hprog hviewed hstock
    obtain ⟨w, he, hpost⟩ := run_ended (engagement_fits _ digest ops) (engagement_supported h)
      hr engagement_given hprog
    have hhist : (c.sess i).hist = w.sess.hist := congrArg Session.hist he.sess
    obtain ⟨x, hx, hne⟩ := hviewed
    have hproduct := EngagementOp.product_of_viewed (engagement_commit h hr hx).1 hne
    exact hpost.failed n e hproduct rfl ⟨x, hhist ▸ hx, hne⟩ hstock
  case once =>
    intro n d key
    have hnodup := ((engagementInv_reached h hr).views.filter fun r => r.product == n).filter
      fun r => r.viewedOn == d && r.viewerDigest == digest n d key
    rw [← List.map_id (List.filter _ _)] at hnodup
    refine length_le_one_of_key (k := ⟨n, d, digest n d key⟩) hnodup fun r hr => ?_
    obtain ⟨hr, hkey⟩ := List.mem_filter.mp hr
    rw [Bool.and_eq_true, beq_iff_eq, beq_iff_eq] at hkey
    have hproduct := beq_iff_eq.mp (List.mem_filter.mp hr).2
    show ProductView.mk r.product r.viewedOn r.viewerDigest = _
    rw [hproduct, hkey.1, hkey.2]
  case commits => exact fun i e he => (engagement_commit h hr he).1
  case again =>
    intro i j user n active hi hj s1 s2 t t' hs ht hsame
    have hfirst := (engagement_commit h hr hs).1
    have hsecond := (engagement_commit h hr ht).1
    rw [hi] at hfirst
    rw [hj] at hsecond
    exact hsecond.1.again (hsame.trans hfirst.1.set)
  case commute =>
    have heffect : ∀ {i user n active t t'}, ops i = .setFavorite user n active →
        CommitsIn digest ops s now i t t' → FavoriteSet user n active t t' ∧
          EngagementInv (fun n => (viewsOf n s).length) t' := by
      rintro i user n active t t' hi ⟨d, hd, hmem⟩
      obtain ⟨he, hstep, -, -⟩ := engagement_commit h hd hmem
      rw [hi] at he
      exact ⟨he.1, hstep.inv⟩
    intro i j user n active user' n' active' hi hj hne s1 s2 s3 t2 t3 h1 h2 h3 h4
    exact sameFavorites_of (heffect hj h2).2 (heffect hi h4).2
      ((heffect hi h1).1.commute hne (heffect hj h2).1 (heffect hj h3).1 (heffect hi h4).1)

/-- A product for sale, and a user without money. -/
def lampOnShow : Store :=
  { users := [{ pk := 1, username := "seller" },
      { pk := 2, username := "buyer", password := some "pw" }],
    products := [{ pk := 11, owner := 1, title := "lamp" }],
    accounts := [{ pk := 21, user := 2, balance := 0 }],
    ledgerAccounts := [{ pk := 31, kind := .user, mockAccount := some 21, code := "USER:2" }] }

/-- The user likes the product and withdraws, while somebody looks at it. -/
def likeAndLeave : Fin 3 → EngagementOp
  | 0 => .setFavorite 2 11 true
  | 1 => .recordView { sessionKey := some "session" } { pk := 11, owner := 1, title := "lamp" }
  | 2 => .withdraw 2 "pw"

/-- The view is inserted before the favorite is set, and counted after the withdrawal. -/
theorem exact_at_rest_between : ∃ c : Config (Fin 3) Store Lock Exn Obs Unit,
    Reached lampOnShow 1000 (fun i => (likeAndLeave i).run fun _ _ key => key) c ∧
    (c.db.favorites.length = 0 ∧ c.db.productViews.length = 1 ∧
      c.db.productMetrics.map (fun m => (m.favoriteCount, m.viewCount)) = [(0, 1)]) ∧
    ExactAtRest (fun _ _ key => key) likeAndLeave lampOnShow 1000 c := by
  let seen (d : Config (Fin 3) Store Lock Exn Obs Unit) :=
    (d.db.favorites.length, d.db.productViews.length,
      d.db.productMetrics.map fun m => (m.favoriteCount, m.viewCount))
  have hplay : (play validateBalancedJournal
      [.run 1 8 id, .run 0 100 (· + 1), .run 2 200 (· + 7), .run 1 100 (· + 1)]
      (Config.start lampOnShow 1000 fun i => (likeAndLeave i).run fun _ _ key => key)).map seen =
      some (0, 1, [(0, 1)]) := by decide +kernel
  obtain ⟨c, hr, hseen⟩ := reaches_of_play (D := postgres fun _ _ => False) (f := seen) hplay
  obtain ⟨hfavorites, hrest⟩ := Prod.mk.inj hseen
  refine ⟨c, hr, ⟨hfavorites, Prod.mk.inj hrest⟩, exact_at_rest ?_ hr⟩
  exact ⟨by decide, by decide, by decide, fun _ => Nat.zero_le _, fun _ _ h => (nomatch h),
    fun _ => Nat.le_refl _⟩

end Market
