import Marketplace.GallerySpecs
import Marketplace.TxnSchedule

/-! # Edits of products in every run

    An edit of a product is checked against the version that its form was rendered with,
    under the lock of the row, and raises it.  So of the requests that submit one version
    one at most is committed, and one whose version is out of date does nothing at all.
    What changes without a new version is only that a pending image is promoted. -/

namespace Market

open TxnProgram TxnInterleaving TxnLogic TxnProtection TxnSoundness TxnBody TxnFrames
  TxnInvariants TxnSchedule

variable {p : Platform} {Γ : Ctx Store Lock Exn Obs} {w w' : World Store Lock Obs}
  {s s' s'' : Store} {held : List Lock} {storage : FileStorage} {n : Nat} {f : Store → Store}
  {x x' : Product} {edits : Product → Product → Prop}

/-! ## Galleries -/

/-- A row of a gallery, as it was or promoted. -/
def Promotes (r r' : ProductImage) : Prop :=
  r' = r ∨ r.promotionState = .pending ∧
    r' = { r with image := r.ownedKey, promotionState := .promoted }

def galleryOf (n : Nat) (s : Store) : List ProductImage :=
  s.productImages.filter (·.product == n)

/-- The gallery of a product is the same, up to promotions. -/
def GalleryKept (n : Nat) (s s' : Store) : Prop :=
  List.Forall₂ Promotes (galleryOf n s) (galleryOf n s')

theorem galleryKept_same (h : galleryOf n s' = galleryOf n s) : GalleryKept n s s' := by
  rw [GalleryKept, h]
  exact List.forall₂_same.mpr fun _ _ => Or.inl rfl

/-! ## What one commit does -/

/-- The primary keys of products and images are primary keys. -/
structure CatalogInv (s : Store) : Prop where
  products : (s.products.map (·.pk)).Nodup
  images : (s.productImages.map (·.pk)).Nodup

/-- A product is known by its key. -/
theorem CatalogInv.eq_of_pk (h : CatalogInv s) (hx : x ∈ s.products) (hx' : x' ∈ s.products)
    (hpk : x.pk = x'.pk) : x = x' :=
  List.inj_on_of_nodup_map h.products hx hx' hpk

/-- What becomes of a product in a commit that makes `edits` only. -/
def RowStep (edits : Product → Product → Prop) (s s' : Store) (x x' : Product) : Prop :=
  (x' = x ∧ GalleryKept x.pk s s') ∨ edits x x'

/-- A commit that makes `edits` only, and adds any products. -/
structure CatalogStep (edits : Product → Product → Prop) (s s' : Store) : Prop where
  inv : CatalogInv s'
  rows : ∃ rows new, s'.products = rows ++ new ∧
    List.Forall₂ (RowStep edits s s') s.products rows

/-- The products that are there stay, and so do their galleries, up to promotions. -/
structure CatalogQuiet (s s' : Store) : Prop where
  inv : CatalogInv s'
  products : s.products <+: s'.products
  galleries : ∀ x ∈ s.products, GalleryKept x.pk s s'

/-- Who leaves the catalog alone makes no edit. -/
theorem CatalogQuiet.step (h : CatalogQuiet s s') : CatalogStep edits s s' := by
  obtain ⟨new, hnew⟩ := h.products
  exact ⟨h.inv, s.products, new, hnew.symm,
    List.forall₂_same.mpr fun x hx => Or.inl ⟨rfl, h.galleries x hx⟩⟩

/-- A related element on the other side. -/
theorem forall₂_mem_left {α β : Type} {R : α → β → Prop} {l : List α} {l' : List β}
    (h : List.Forall₂ R l l') : ∀ {a}, a ∈ l → ∃ b ∈ l', R a b := by
  induction h with
  | nil => exact fun ha => nomatch ha
  | cons hr _ ih =>
      intro a ha
      rcases List.mem_cons.mp ha with rfl | ha
      · exact ⟨_, List.mem_cons_self, hr⟩
      · obtain ⟨b, hb, hab⟩ := ih ha
        exact ⟨b, List.mem_cons_of_mem _ hb, hab⟩

/-- **ROW**: what a commit makes of a product that is there. -/
theorem CatalogStep.row (h : CatalogStep edits s s') (hx : x ∈ s.products) :
    ∃ x' ∈ s'.products, RowStep edits s s' x x' := by
  obtain ⟨rows, new, hproducts, hrows⟩ := h.rows
  obtain ⟨x', hx', hstep⟩ := forall₂_mem_left hrows hx
  exact ⟨x', by rw [hproducts]; exact List.mem_append_left _ hx', hstep⟩

/-! ## Edits -/

/-- An edit raises the version of a product that is not archived. -/
structure Edit (x x' : Product) : Prop where
  identity : x'.identity = x.identity
  live : x.archivedAt = none
  version : x'.version = x.version + 1

/-- A request to edit a product, by the version that it submits. -/
structure Submission where
  user : Nat
  product : Nat
  version : Int

/-- The product is the user's, is not archived, and has the version submitted. -/
structure Submission.Fits (sub : Submission) (x : Product) : Prop where
  product : x.pk = sub.product
  owner : x.owner = sub.user
  live : x.archivedAt = none
  version : (x.version : Int) = sub.version

/-- The version submitted is the current one. -/
def Submission.Current (sub : Submission) (s : Store) : Prop := ∃ x ∈ s.products, sub.Fits x

/-- The product has got a later version. -/
def Submission.Outdated (sub : Submission) (s : Store) : Prop :=
  ∃ x ∈ s.products, x.pk = sub.product ∧ sub.version < x.version

/-- What `product_update` makes of a product, with a valid form. -/
def UpdateEdit (p : Platform) (user n : Nat) (form : Option ProductUpdateFields)
    (x x' : Product) : Prop :=
  ∃ fields, form = some fields ∧ Submission.Fits ⟨user, n, fields.version⟩ x ∧
    ∃ t, x' = { fields.fill p x with version := x.version + 1, updatedAt := t }

/-- What `product_delete` makes of a product. -/
def DeleteEdit (user n : Nat) (version : Int) (x x' : Product) : Prop :=
  Submission.Fits ⟨user, n, version⟩ x ∧ ∃ now t, x' = archive now t x

/-- What `withdraw_account` makes of a product. -/
def WithdrawEdit (user : Nat) (x x' : Product) : Prop :=
  x.owner = user ∧ x.archivedAt = none ∧ ∃ now, x' = archive now now x

/-- An update raises the version by one, -/
theorem UpdateEdit.edit {user : Nat} {form : Option ProductUpdateFields}
    (h : UpdateEdit p user n form x x') : Edit x x' := by
  obtain ⟨fields, -, hfits, t, rfl⟩ := h
  exact ⟨rfl, hfits.live, rfl⟩

/-- so does a deletion, -/
theorem DeleteEdit.edit {user : Nat} {version : Int} (h : DeleteEdit user n version x x') :
    Edit x x' := by
  obtain ⟨hfits, now, t, rfl⟩ := h
  exact ⟨rfl, hfits.live, rfl⟩

/-- and so does an archival by withdrawal. -/
theorem WithdrawEdit.edit {user : Nat} (h : WithdrawEdit user x x') : Edit x x' := by
  obtain ⟨-, hlive, now, rfl⟩ := h
  exact ⟨rfl, hlive, rfl⟩

/-- What becomes of the gallery of the product that is edited. -/
inductive GalleryEdit (n : Nat) (held : List Lock) (s : Store) (f : Store → Store) : Prop where
  | kept : (∀ s, (f s).productImages = s.productImages) → GalleryEdit n held s f
  | replaced (found : List Nat) (new : List ProductImage) : Replacing n found new held s →
      (∀ s, (f s).productImages = (removeImages n found s).productImages ++ new) →
      GalleryEdit n held s f

/-- What a request to edit a product is about to commit. -/
inductive EditEnd (edits : Product → Product → Prop) (held : List Lock) (s : Store)
    (f : Store → Store) : Prop where
  | kept : (∀ s, f s = s) → EditEnd edits held s f
  | edited (x : Product) (g : Product → Product) : .row .product x.pk ∈ held → x ∈ s.products →
      edits x (g x) → (∀ r, (g r).identity = r.identity) → GalleryEdit x.pk held s f →
      (∀ s, (f s).products = (updateProducts [x.pk] g s).products) →
      (∀ s, f s = { s with products := (f s).products, productImages := (f s).productImages,
                           deletionIntents := (f s).deletionIntents }) →
      EditEnd edits held s f

/-- A gallery edit stays what it was, as long as the locks are held. -/
theorem GalleryEdit.near (hG : GalleryAbides p Γ) (h : GalleryEdit n w.sess.held w.db f)
    (hn : Near Γ w w') : GalleryEdit n w'.sess.held w'.db f := by
  cases h with
  | kept h => exact .kept h
  | replaced found new hr hf => exact .replaced found new (hr.near hG hn) hf

/-- The images of other products are not removed. -/
theorem mem_removeImages {found : List Nat} {r : ProductImage} :
    r ∈ (removeImages n found s).productImages ↔
      r ∈ s.productImages ∧ ¬ (r.product = n ∧ r.pk ∈ found) := by
  rw [removeImages, List.mem_filter, Bool.not_eq_true', ← Bool.not_eq_true, Bool.and_eq_true,
    beq_iff_eq, List.contains_iff_mem]

/-- A replacement leaves the galleries of the other products alone. -/
theorem GalleryEdit.others (h : GalleryEdit n held s f) {m : Nat} (hm : m ≠ n) :
    galleryOf m (f s) = galleryOf m s := by
  cases h with
  | kept h =>
      rw [galleryOf, h]
      rfl
  | replaced found new hr hf =>
      have hnew : new.filter (·.product == m) = [] := by
        refine List.filter_eq_nil_iff.mpr fun r hr' hp => hm ?_
        rw [← beq_iff_eq.mp hp, hr.product r hr']
      rw [galleryOf, hf, List.filter_append, hnew, List.append_nil, removeImages,
        List.filter_filter]
      refine List.filter_congr fun r _ => ?_
      cases hp : r.product == m with
      | false => rfl
      | true =>
          have hne : (r.product == n) = false := by
            rw [beq_iff_eq.mp hp]
            exact beq_eq_false_iff_ne.mpr hm
          rw [hne]
          rfl

/-- The images keep their primary key. -/
theorem GalleryEdit.images (h : GalleryEdit n held s f) (hi : CatalogInv s) :
    ((f s).productImages.map (·.pk)).Nodup := by
  cases h with
  | kept h =>
      rw [h]
      exact hi.images
  | replaced found new hr hf =>
      rw [hf, List.map_append, List.nodup_append']
      refine ⟨hi.images.sublist (List.Sublist.map _ List.filter_sublist), hr.keys, ?_⟩
      intro k hk hk'
      obtain ⟨y, hy, rfl⟩ := List.mem_map.mp hk
      obtain ⟨r, hr', hpk⟩ := List.mem_map.mp hk'
      obtain ⟨hy, hstays⟩ := mem_removeImages.mp hy
      exact hstays (hr.free r hr' y hy hpk.symm)

/-- A replacement leaves alone the images that others may have locked. -/
theorem GalleryEdit.respects (h : GalleryEdit n held s f) : GalleryRespects held s (f s) := by
  cases h with
  | kept h => exact galleryRespects_same (h s)
  | replaced found new hr hf =>
      refine galleryRespects_of fun k hopen hthere => ?_
      obtain ⟨y, hy'⟩ := List.exists_mem_of_ne_nil _ hthere
      obtain ⟨hy, rfl⟩ := mem_imagesAt.mp hy'
      have hnotfound : y.pk ∉ found := fun hk => not_open_row (hr.locked _ hk) hopen
      have hnew : new.filter (·.pk == y.pk) = [] := by
        refine List.filter_eq_nil_iff.mpr fun r hr' hp => hnotfound ?_
        exact (hr.free r hr' y hy (beq_iff_eq.mp hp).symm).2
      rw [imagesAt, hf, List.filter_append, hnew, List.append_nil, removeImages,
        List.filter_filter]
      refine List.filter_congr fun r _ => ?_
      cases hp : r.pk == y.pk with
      | false => rfl
      | true =>
          have hne : found.contains r.pk = false := by
            rw [beq_iff_eq.mp hp, Bool.eq_false_iff]
            exact fun hc => hnotfound (List.contains_iff_mem.mp hc)
          rw [hne, Bool.and_false]
          rfl

/-- **EDIT**: the commit of a request to edit a product. -/
theorem EditEnd.step (h : EditEnd edits held s f) (hi : CatalogInv s) :
    CatalogStep edits s (f s) := by
  cases h with
  | kept h =>
      rw [h]
      exact (CatalogQuiet.mk hi List.prefix_rfl fun _ _ => galleryKept_same rfl).step
  | edited x g _ hx hedit hid hgallery hproducts _ =>
      have hpks : (f s).products.map (·.pk) = s.products.map (·.pk) := by
        rw [hproducts, updateProducts, List.map_map]
        refine List.map_congr_left fun r _ => ?_
        show (if _ then g r else r).pk = r.pk
        split
        · exact congrArg Prod.fst (hid r)
        · rfl
      refine ⟨⟨by rw [hpks]; exact hi.products, hgallery.images hi⟩, (f s).products, [],
        (List.append_nil _).symm, ?_⟩
      rw [hproducts]
      show List.Forall₂ _ _ (s.products.map _)
      rw [List.forall₂_map_right_iff]
      refine List.forall₂_same.mpr fun r hr => ?_
      by_cases hpk : r.pk = x.pk
      · have hrx : r = x := hi.eq_of_pk hr hx hpk
        subst hrx
        rw [if_pos (List.contains_iff_mem.mpr List.mem_cons_self)]
        exact Or.inr hedit
      · rw [if_neg fun hc => hpk (List.mem_singleton.mp (List.contains_iff_mem.mp hc))]
        exact Or.inl ⟨rfl, galleryKept_same (hgallery.others hpk)⟩

/-- An edit respects the galleries of others. -/
theorem EditEnd.respects (h : EditEnd edits held s f) : GalleryRespects held s (f s) := by
  cases h with
  | kept h => exact galleryRespects_same (by rw [h])
  | edited _ _ _ _ _ _ hgallery _ _ => exact hgallery.respects

/-- **PROMOTION**: what is committed after an edit. -/
theorem GalleryEnd.quiet (h : GalleryEnd held s f) (hi : CatalogInv s) : CatalogQuiet s (f s) := by
  cases h with
  | intents h =>
      rw [h s]
      exact ⟨⟨hi.products, hi.images⟩, List.prefix_rfl, fun _ _ => galleryKept_same rfl⟩
  | promoted r hr hf =>
      rw [hf]
      refine ⟨⟨hi.products, ?_⟩, List.prefix_rfl, fun x _ => ?_⟩
      · show ((s.productImages.map (promoteRow r.pk r.ownedKey)).map (·.pk)).Nodup
        rw [List.map_map]
        simpa [Function.comp_def] using hi.images
      · have hgallery : galleryOf x.pk (setPromoted r.pk r.ownedKey s) =
            (galleryOf x.pk s).map (promoteRow r.pk r.ownedKey) := by
          show (s.productImages.map (promoteRow r.pk r.ownedKey)).filter _ = _
          rw [List.filter_map]
          simp [Function.comp_def, galleryOf]
        rw [GalleryKept, hgallery, List.forall₂_map_right_iff]
        refine List.forall₂_same.mpr fun y hy => ?_
        by_cases hpk : y.pk = r.pk
        · -- the row with the key is the one that was locked
          have hyr : y = r := List.inj_on_of_nodup_map hi.images (List.mem_filter.mp hy).1
            hr.row hpk
          subst hyr
          exact Or.inr ⟨hr.pending, if_pos rfl⟩
        · exact Or.inl (if_neg hpk)

/-- So does a transaction of galleries. -/
theorem GalleryEnd.respects (h : GalleryEnd held s f) : GalleryRespects held s (f s) := by
  cases h with
  | intents h => exact galleryRespects_same (by rw [h s]; rfl)
  | promoted r hr hf =>
      rw [hf]
      refine galleryRespects_of fun k hopen _ => ?_
      show (s.productImages.map (promoteRow r.pk r.ownedKey)).filter _ = imagesAt k s
      rw [List.filter_map, imagesAt]
      simp only [Function.comp_def, promoteRow_pk]
      refine (List.map_congr_left fun y hy => if_neg fun hpk => ?_).trans (List.map_id _)
      rw [(beq_iff_eq.mp (List.mem_filter.mp hy).2).symm, hpk] at hopen
      exact not_open_row hr.locked hopen

/-! ## Requests -/

/-- What is known of a session that has neither changed nor saved anything. -/
structure Unchanged (w : World Store Lock Obs) : Prop where
  idle : Idle w
  commits : commitsOf w.sess.hist = []
  marks : NoNewMarks [] w.sess.hist

/-- To observe nothing is no matter of the locks. -/
theorem mute_abides (hA : Abides p Γ) : Abides p (mute Γ) :=
  ⟨mute_lawful hA.lawful, hA.rely, hA.leave, hA.deferred⟩

/-- Nor is it to observe less. -/
theorem silent_abides (hA : Abides p Γ) (loud quiet : Obs → Prop) :
    Abides p (silent Γ loud quiet) :=
  ⟨silent_lawful hA.lawful loud quiet, hA.rely, hA.leave, hA.deferred⟩

/-- Looking before the transaction, in a context where nothing may be observed. -/
theorem wp_unchanged {α : Type} {m : M α} {P : α → World Store Lock Obs → Prop}
    {F : Exn → Prop} (htop : Top (mute Γ) m) (hlook : Look (mute Γ) m w P F) (h : Unchanged w) :
    wp Γ m (fun r w' => Unchanged w' ∧ ends P F r w') w := by
  refine wp_mono ?_ (wp_mute [] h.marks (wp_both (joins_refl _) (htop w h.idle) hlook))
  rintro r w' ⟨⟨hi, hs, hr⟩, hmarks⟩
  exact ⟨⟨hi, hs.commits.trans h.commits, hmarks⟩, hr⟩

/-- The user of a request is the one that it names. -/
theorem look_requestUser_pk (hΓ : Lawful Γ) (r : Request) :
    Look Γ (requestUser r) w (fun u _ => u.pk = r.user) anyError := by
  refine Look.bind hΓ (look_fetch anyError_faults _) fun row w1 _ hrow => ?_
  cases row with
  | none => exact Look.raise hΓ trivial
  | some u =>
      have hu := List.find?_some hrow.symm
      rw [Bool.and_eq_true, beq_iff_eq] at hu
      dsimp only
      split
      · exact Look.raise hΓ trivial
      · refine Look.bind hΓ (look_effectiveUserStatus hΓ anyError_faults _ _) fun _ _ _ _ => ?_
        split
        · exact Look.raise hΓ trivial
        · exact Look.ret hΓ hu.1

/-- A request has done nothing: it changed nothing, and it saved and deleted no file. -/
structure NothingDone (h : List (Event Store Obs)) : Prop where
  commits : ∀ e ∈ commitsOf h, e.2 = e.1
  files : ∀ now db key, .marked now db (.savingFile key) ∉ h ∧
    .marked now db (.deletingFile key) ∉ h

/-- A commit that makes an edit. -/
def EditsIn (edits : Product → Product → Prop) (e : Store × Store) : Prop :=
  ∃ x ∈ e.1.products, ∃ x' ∈ e.2.products, edits x x'

/-- The history of a request that has made its edit. -/
def Edited (edits : Product → Product → Prop) (h : List (Event Store Obs)) : Prop :=
  ∃ e ∈ commitsOf h, EditsIn edits e

/-- What a request to edit a product answers: 302 when it has made its edit, and anything
    else without having done anything. -/
structure EditPost (edits : Product → Product → Prop) (r : Except Exn Nat)
    (w : World Store Lock Obs) : Prop where
  edited : r = .ok 302 → Edited edits w.sess.hist
  refused : ∀ status, r = .ok status → status ≠ 302 → NothingDone w.sess.hist

/-- Who raises has made no promise of an answer. -/
theorem editPost_error {e : Exn} : EditPost edits (.error e) w :=
  ⟨fun h => (nomatch h), fun _ h => nomatch h⟩

/-- Who has changed nothing may refuse. -/
theorem Unchanged.refused (h : Unchanged w) (status : Nat) (hstatus : status ≠ 302) :
    EditPost edits (.ok status) w := by
  refine ⟨fun h => absurd (Except.ok.inj h) hstatus, fun _ _ _ => ⟨fun e he => ?_, fun _ _ _ => ?_⟩⟩
  · rw [h.commits] at he
    exact nomatch he
  · exact ⟨fun hm => (nomatch h.marks _ _ _ hm), fun hm => nomatch h.marks _ _ _ hm⟩

/-- The commit of an empty transaction. -/
theorem refused_publish (hcommits : commitsOf w.sess.hist = []) (hpend : w.sess.pend = id)
    (hmarks : NoNewMarks [] w.sess.hist) (status : Nat) (hstatus : status ≠ 302) :
    EditPost edits (.ok status) w.publish := by
  refine ⟨fun h => absurd (Except.ok.inj h) hstatus, fun _ _ _ => ⟨fun e he => ?_, fun _ _ _ => ?_⟩⟩
  · rcases List.mem_cons.mp he with rfl | he
    · exact view_of_id hpend
    · rw [hcommits] at he
      exact nomatch he
  · constructor
    · rintro (_ | ⟨_, hm⟩)
      exact nomatch hmarks _ _ _ hm
    · rintro (_ | ⟨_, hm⟩)
      exact nomatch hmarks _ _ _ hm

/-- The commit of an edit. -/
theorem edited_publish {g : Product → Product} (hx : x ∈ w.db.products) (hedit : edits x (g x))
    (hproducts : w.view.products = (updateProducts [x.pk] g w.db).products) :
    Edited edits w.publish.sess.hist := by
  refine ⟨_, List.mem_cons_self, x, hx, g x, ?_, hedit⟩
  show g x ∈ w.view.products
  rw [hproducts]
  exact List.mem_map.mpr ⟨x, hx, if_pos (List.contains_iff_mem.mpr List.mem_cons_self)⟩

/-- What follows an edit does not undo it. -/
theorem Edited.later {α : Type} {m : M α} (htop : Top Γ m) (hi : Idle w)
    (h : Edited edits w.sess.hist) : wp Γ m (fun _ w' => Edited edits w'.sess.hist) w := by
  refine wp_mono ?_ (wp_hist (htop w hi))
  rintro _ w' ⟨-, hhist⟩
  obtain ⟨e, he, hedit⟩ := h
  exact ⟨e, mem_commitsOf_suffix hhist he, hedit⟩

/-! ## Specifications of the requests -/

/-- The row that a request to edit a product locks. -/
theorem look_lockedProduct (hA : Abides p Γ) (hop : OperationalFaults Γ) (user n : Nat)
    (hpend : w.sess.pend = id) :
    Look Γ (Prog.tryCatch (getForUpdate .product (·.products) (·.pk) fun r =>
        r.pk == n && r.owner == user && r.archivedAt.isNone) fun
      | .doesNotExist _ => raise .http404
      | e => raise e) w
      (fun x w' => x ∈ w'.db.products ∧ x.pk = n ∧ x.owner = user ∧ x.archivedAt = none ∧
        .row .product x.pk ∈ w'.sess.held) (fun e => e = .http404 ∨ Γ.fault e) := by
  have hΓ := hA.lawful
  have hlook := look_getForUpdate (F := fun e => Γ.fault e ∨ e = .doesNotExist .product) (w := w) hΓ
    (fun _ he => Or.inl he) .product (·.products) (·.pk)
    (fun r => r.pk == n && r.owner == user && r.archivedAt.isNone) (Or.inr rfl)
  refine Look.tryCatch hΓ (hlook.mono fun x w' hs ⟨hx, hp, hlock⟩ => ?_) fun e w' _ he => ?_
  · rw [view_of_id (hs.pend.trans hpend)] at hx
    rw [Bool.and_eq_true, Bool.and_eq_true, beq_iff_eq, beq_iff_eq, Option.isNone_iff_eq_none] at hp
    exact ⟨hx, hp.1.1, hp.1.2, hp.2, hlock⟩
  · rcases he with he | rfl
    · obtain ⟨sqlstate, rfl⟩ := hop e he
      exact Look.raise hΓ (Or.inr he)
    · exact Look.raise hΓ (Or.inl rfl)

/-- What the `with` block of `product_update` ends with. -/
inductive UpdateBodyEnd (p : Platform) (user n : Nat) (form : ProductUpdateFields)
    (w : World Store Lock Obs) : Nat × Option (List String) → Prop where
  | refused : w.sess.pend = id → NoNewMarks [] w.sess.hist →
      UpdateBodyEnd p user n form w (409, none)
  | edited (x : Product) (g : Product → Product) (files : Option (List String)) :
      .row .product x.pk ∈ w.sess.held → x ∈ w.db.products →
      UpdateEdit p user n (some form) x (g x) → (∀ r, (g r).identity = r.identity) →
      GalleryEdit x.pk w.sess.held w.db w.sess.pend →
      (∀ s, (w.sess.pend s).products = (updateProducts [x.pk] g s).products) →
      (∀ s, w.sess.pend s = { s with
        products := (w.sess.pend s).products, productImages := (w.sess.pend s).productImages,
        deletionIntents := (w.sess.pend s).deletionIntents }) →
      UpdateBodyEnd p user n form w (302, files)

/-- **SPECIFICATION** of the transaction of `product_update`. -/
theorem body_productUpdate (hG : GalleryAbides p Γ) (hop : OperationalFaults Γ)
    (hfiles : FilesShown Γ) {user n : Nat} {form : ProductUpdateFields} (hshown : ∀ k now s,
      Submission.Current ⟨user, n, form.version⟩ s → Γ.shown (.editing k) now s)
    (hpend : w.sess.pend = id) (hmarks : NoNewMarks [] w.sess.hist) :
    Body Γ (productUpdateBody p storage user n form) w
      (fun r w' => UpdateBodyEnd p user n form w' r) anyError := by
  have hΓ := hG.abides.lawful
  have hlook := wp_mute (Γ := Γ) [] hmarks
    (look_lockedProduct (mute_abides hG.abides) hop user n hpend)
  refine wp_bind (wp_mono ?_ hlook)
  rintro (e | x) w1 ⟨⟨hs, hx⟩, hmarks1⟩
  · exact ⟨Still.within hΓ ⟨⟨hs.frames, hs.start, hs.held, hs.now, hs.db, hs.commits⟩, hs.pend⟩,
      trivial⟩
  have h1 : Still Γ w w1 :=
    ⟨⟨hs.frames, hs.start, hs.held, hs.now, hs.db, hs.commits⟩, hs.pend⟩
  obtain ⟨hrow, hpk, howner, hlive, hlock⟩ := hx
  have hpend1 := h1.pend.trans hpend
  have hbody : Body Γ (if form.version != x.version then return (409, none)
      else do
        Prog.observe (.editing x.pk)
        let updatedAt ← timezoneNow
        updateRows .product [x.pk] (updateProducts [x.pk] fun r =>
          { form.fill p r with version := x.version + 1, updatedAt := updatedAt })
        if !form.images.isEmpty || form.clearImages then do
          let files ← replaceProductImages storage x.pk form.images
          return (302, some files)
        else return (302, none)) w1 (fun r w' => UpdateBodyEnd p user n form w' r) anyError := by
    split
    · exact Body.ret hΓ (.refused hpend1 hmarks1)
    · next hversion =>
        rw [bne_iff_ne, not_not] at hversion
        have hfits : Submission.Fits ⟨user, n, form.version⟩ x :=
          ⟨hpk, howner, hlive, hversion.symm⟩
        refine Body.look hΓ (Look.observe fun w2 h2 _ => hshown _ _ _ ⟨x, ?_, hfits⟩)
          fun _ w2 h2 _ => ?_
        · exact (hG.abides.same h2.toNear hlock).1 x hrow rfl
        refine Body.look hΓ Look.fresh fun t w3 h3 _ => ?_
        have h13 : Still Γ w1 w3 := h2.trans hΓ h3
        refine Body.bind hΓ (body_updateRows hΓ anyError_faults fun held _ hlocks s =>
          hG.abides.leave _ _ _ (respects_updateProducts hlocks fun _ => rfl))
          fun _ w4 h4 ⟨hp4, _⟩ => ?_
        let g : Product → Product := fun r =>
          { form.fill p r with version := x.version + 1, updatedAt := t }
        have hpend4 : w4.sess.pend = updateProducts [x.pk] g := by
          rw [hp4, h13.pend, hpend1]
          rfl
        -- the row is still the one that was locked
        have hrow' : ∀ {w' : World Store Lock Obs}, Within Γ w4 w' → x ∈ w'.db.products ∧
            .row .product x.pk ∈ w'.sess.held := fun hw' => by
          have hnear := h13.toNear.trans hΓ (h4.toNear.trans hΓ hw'.toNear)
          exact ⟨(hG.abides.same hnear hlock).1 x hrow rfl, hnear.held hlock⟩
        split
        · refine Body.bind hΓ (body_replaceProductImages hG hfiles form.images fun s => by
            rw [hpend4]; rfl) fun files w5 h5 ⟨found, new, hready, hp5⟩ => Body.ret hΓ ?_
          obtain ⟨hx5, hl5⟩ := hrow' h5
          refine .edited x g _ hl5 hx5 ⟨form, rfl, hfits, t, rfl⟩ (fun _ => rfl)
            (.replaced found new hready fun s => ?_) (fun s => ?_) fun s => ?_
          · rw [hp5 s, hpend4]
            rfl
          · rw [hp5 s, hpend4]
          · rw [hp5 s, hpend4]
            rfl
        · obtain ⟨hx4, hl4⟩ := hrow' (Within.refl hΓ w4)
          refine Body.ret hΓ (.edited x g _ hl4 hx4 ⟨form, rfl, hfits, t, rfl⟩ (fun _ => rfl)
            (.kept fun s => ?_) (fun s => ?_) fun s => ?_)
          · rw [hpend4]
            rfl
          · rw [hpend4]
          · rw [hpend4]
            rfl
  refine wp_mono ?_ hbody
  rintro r w2 ⟨h2, hr⟩
  exact ⟨(h1.within hΓ).trans hΓ h2, hr⟩

/-- Its end stays one, whatever others do. -/
theorem UpdateBodyEnd.env (hG : GalleryAbides p Γ) {user : Nat} {form : ProductUpdateFields}
    {r : Nat × Option (List String)} (h : UpdateBodyEnd p user n form w r) (he : Env Γ w w') :
    UpdateBodyEnd p user n form w' r := by
  have hn := he.still.toNear
  have hpend : w'.sess.pend = w.sess.pend := he.still.pend
  cases h with
  | refused hp hmarks => exact .refused (hpend.trans hp) (by rw [he.sess]; exact hmarks)
  | edited x g files hlock hx hedit hid hgallery hproducts hrest =>
      refine .edited x g files (hn.held hlock) ((hG.abides.same hn hlock).1 x hx rfl) hedit hid ?_
        ?_ ?_
      · rw [hpend]
        exact hgallery.near hG hn
      · rw [hpend]
        exact hproducts
      · rw [hpend]
        exact hrest

/-- What the `with` block of `product_update` leaves to be committed. -/
theorem UpdateBodyEnd.editEnd {user : Nat} {form : ProductUpdateFields}
    {r : Nat × Option (List String)} (h : UpdateBodyEnd p user n form w r) :
    EditEnd (UpdateEdit p user n (some form)) w.sess.held w.db w.sess.pend := by
  cases h with
  | refused hpend _ => exact .kept fun s => by rw [hpend]; rfl
  | edited x g files hlock hx hedit hid hgallery hproducts hrest =>
      exact .edited x g hlock hx hedit hid hgallery hproducts hrest

/-- What a session may commit to edit a product, and after it. -/
structure MayEdit (Γ : Ctx Store Lock Exn Obs) (edits : Product → Product → Prop) : Prop where
  edit : ∀ held s f, Γ.leave held s (f s) → EditEnd edits held s f → Γ.guar held s (f s)
  after : ∀ held s f, Γ.leave held s (f s) → GalleryEnd held s f → Γ.guar held s (f s)

/-- **SPECIFICATION** of `product_update`. -/
theorem wp_productUpdate (hG : GalleryAbides p Γ) (hop : OperationalFaults Γ)
    (hfiles : FilesShown Γ) (r : Request) (n : Nat) (form : Option ProductUpdateFields)
    (hshown : ∀ k now s, (∀ fields, form = some fields →
      Submission.Current ⟨r.user, n, fields.version⟩ s) → Γ.shown (.editing k) now s)
    (hmay : MayEdit Γ (UpdateEdit p r.user n form)) (h : Unchanged w) :
    wp Γ (productUpdate p storage r n form) (EditPost (UpdateEdit p r.user n form)) w := by
  have hM := mute_abides hG.abides
  refine wp_bind (wp_mono ?_ (wp_unchanged (top_requestUser r)
    (look_requestUser_pk hM.lawful r) h))
  rintro (e | user) w1 ⟨h1, huser⟩
  · exact editPost_error
  have huser' : user.pk = r.user := huser
  refine wp_bind (wp_mono ?_ (wp_unchanged (Top.select _)
    (look_fetch (Γ := mute Γ) anyError_faults fun s => s.products.find? fun x =>
      x.pk == n && x.owner == user.pk && x.archivedAt.isNone) h1))
  rintro (e | found) w2 ⟨h2, -⟩
  · exact editPost_error
  rw [onOk_ok]
  cases found with
  | none => exact editPost_error
  | some x =>
      cases form with
      | none => exact h2.refused 200 (by decide)
      | some form =>
          have hbody : ∀ w', Env Γ w2 w' → Body Γ (productUpdateBody p storage user.pk n form)
              w'.begin (fun r w1 => UpdateBodyEnd p user.pk n form w1 r) anyError := by
            intro w' he
            refine body_productUpdate hG hop hfiles (fun k now s hcurrent => ?_)
              (begin_pend_id h2.idle he) ?_
            · refine hshown k now s fun fields hf => ?_
              cases hf
              rw [← huser']
              exact hcurrent
            · rw [World.begin_hist, he.sess]
              exact h2.marks
          -- the view handles both ends of the transaction
          refine wp_bind (wp_attempt (P := fun _ => True) (fun w' he =>
            wp_mono (fun _ _ _ _ _ => trivial) (hbody w' he)) ?_)
          refine wp_transaction hG.abides.lawful (F := anyError)
            (P := fun _ r w1 => UpdateBodyEnd p user.pk n form w1 r) h2.idle hbody anyError_faults
            (fun e w3 _ hidle _ _ answer _ => ?_) ?_
          · -- rolled back: the files that were written are removed again
            refine wp_mono ?_ (wp_abandonEdit hG hfiles hmay.after e (answer.bind (·.2)) hidle)
            rintro _ _ ⟨e', rfl⟩
            exact editPost_error
          · intro w' res w3 w4 he hw hend he4 hleave
            refine ⟨fun _ => ?_, fun _ _ => trivial⟩
            -- committed: old files are removed after it, and may be left behind
            have hend4 : UpdateBodyEnd p user.pk n form w4 res := hend.env hG he4
            have hcommits : commitsOf w4.sess.hist = [] :=
              (commits_transaction he hw he4).trans h2.commits
            rw [huser'] at hend4
            refine ⟨hmay.edit _ _ _ hleave hend4.editEnd, ?_⟩
            cases hend4 with
            | refused hpend hmarks => exact refused_publish hcommits hpend hmarks 409 (by decide)
            | edited x g files _ hx hedit _ _ hproducts _ =>
                have hedited := edited_publish hx hedit (hproducts w4.db)
                have hpost : ∀ {w' : World Store Lock Obs},
                    Edited (UpdateEdit p r.user n (some form)) w'.sess.hist →
                    EditPost (UpdateEdit p r.user n (some form)) (.ok 302) w' := fun h' =>
                  ⟨fun _ => h', fun _ hs hne => absurd (Except.ok.inj hs).symm hne⟩
                cases files with
                | none => exact hpost hedited
                | some files =>
                    refine wp_bind (wp_mono ?_ (Edited.later
                      (top_repairAfterCommit hG hfiles hmay.after n) (publish_idle w4) hedited))
                    rintro (e | _) w5 h5
                    · exact editPost_error
                    · exact hpost h5

/-- The moment at which a request to update a product has found its version current. -/
def IsEditing : Obs → Prop
  | .editing _ => True
  | _ => False

/-- **STALE**: until then, `product_update` changes nothing, and saves and deletes no file. -/
theorem wp_silentUpdate (hA : Abides p Γ) (hop : OperationalFaults Γ) (r : Request) (n : Nat)
    (form : Option ProductUpdateFields) (hi : Idle w) :
    wp (silent Γ IsEditing fun _ => False) (productUpdate p storage r n form)
      (fun _ _ => True) w := by
  have hS := silent_abides hA IsEditing fun _ => False
  refine wp_bind (wp_mono ?_ (top_requestUser r w hi))
  rintro (e | user) w1 h1
  · trivial
  refine wp_bind (wp_mono ?_ (Top.select (fun (_ : Stamp) (s : Store) => s.products.find? fun x =>
    x.pk == n && x.owner == user.pk && x.archivedAt.isNone) w1 h1))
  rintro (e | found) w2 h2
  · trivial
  rw [onOk_ok]
  cases found with
  | none => trivial
  | some x =>
      cases form with
      | none => trivial
      | some form =>
          have hbody : ∀ w', Env (silent Γ IsEditing fun _ => False) w2 w' →
              Body (silent Γ IsEditing fun _ => False)
                (productUpdateBody p storage user.pk n form) w'.begin
                (fun r w3 => r = (409, none) ∧ w3.sess.pend = id)
                (fun e => e = .http404 ∨ Γ.fault e) := by
            intro w' he
            have hpend := begin_pend_id h2 he
            refine Body.look hS.lawful (look_lockedProduct hS hop user.pk n hpend)
              fun x w3 h3 _ => ?_
            split
            · exact Body.ret hS.lawful ⟨rfl, h3.pend.trans hpend⟩
            · -- the moment is not given
              exact wp_bind (wp_observe fun _ _ hv => absurd trivial hv.2)
          refine wp_bind (wp_attempt (P := fun r => r = (409, none)) (fun w' he => ?_) ?_)
          · refine wp_mono ?_ (hbody w' he)
            rintro _ _ ⟨-, hr⟩ a rfl
            exact hr.1
          refine wp_transaction hS.lawful (F := fun e => e = .http404 ∨ Γ.fault e)
            (P := fun _ r w3 => r = (409, none) ∧ w3.sess.pend = id) h2 hbody
            (fun _ he => Or.inr he) (fun e w3 he hidle _ _ answer hanswer => ?_) ?_
          · have hnone : answer.bind (·.2) = none := by
              cases answer with
              | none => rfl
              | some a =>
                  rw [hanswer a rfl]
                  rfl
            rw [onOk_ok]
            show wp _ (abandonEdit e (answer.bind (·.2))) _ w3
            rw [hnone]
            rcases he with rfl | he
            · trivial
            · obtain ⟨sqlstate, rfl⟩ := hop e he
              trivial
          · intro w' res w3 w4 _ _ ⟨hres, hpend⟩ he4 _
            have hview : w4.view = w4.db := view_of_id (by rw [he4.sess]; exact hpend)
            rw [hres, hview]
            refine ⟨fun _ => ⟨rfl, trivial⟩, fun e hd => ?_⟩
            rw [hS.deferred, validateBalancedJournal_same rfl rfl] at hd
            exact nomatch hd

/-! ## `product_delete` -/

/-- What the `with` block of `product_delete` ends with. -/
inductive DeleteBodyEnd (user n : Nat) (version : Int) (w : World Store Lock Obs) : Nat → Prop where
  | refused : w.sess.pend = id → DeleteBodyEnd user n version w 409
  | deleted (x : Product) (now t : Time) : .row .product x.pk ∈ w.sess.held →
      x ∈ w.db.products → Submission.Fits ⟨user, n, version⟩ x →
      w.sess.pend = updateProducts [x.pk] (archive now t) → DeleteBodyEnd user n version w 302

/-- The end of a deletion stays one under the lock of the product. -/
theorem DeleteBodyEnd.near (hA : Abides p Γ) {user : Nat} {version : Int} {status : Nat}
    (h : DeleteBodyEnd user n version w status) (hs : Still Γ w w') :
    DeleteBodyEnd user n version w' status := by
  cases h with
  | refused hp => exact .refused (hs.pend.trans hp)
  | deleted x now t hlock hx hfits hp =>
      exact .deleted x now t (hs.held hlock) ((hA.same hs.toNear hlock).1 x hx rfl) hfits
        (hs.pend.trans hp)

/-- It is an edit, or nothing. -/
theorem DeleteBodyEnd.editEnd {user : Nat} {version : Int} {status : Nat}
    (h : DeleteBodyEnd user n version w status) :
    EditEnd (DeleteEdit user n version) w.sess.held w.db w.sess.pend := by
  cases h with
  | refused hp => exact .kept fun s => by rw [hp]; rfl
  | deleted x now t hlock hx hfits hp =>
      rw [hp]
      exact .edited x (archive now t) hlock hx ⟨hfits, now, t, rfl⟩ (fun _ => rfl)
        (.kept fun _ => rfl) (fun _ => rfl) fun _ => rfl

/-- **SPECIFICATION** of the `with` block of `product_delete`. -/
theorem body_productDelete (hA : Abides p Γ) (hop : OperationalFaults Γ) (user n : Nat)
    (version : Int) (hpend : w.sess.pend = id) :
    Body Γ (productDeleteBody user n version) w
      (fun status w' => DeleteBodyEnd user n version w' status) anyError := by
  have hΓ := hA.lawful
  have hlook : Look Γ _ w _ anyError := wp_mono (fun r w' (h : _ ∧ _) => ⟨h.1, by
    cases r with
    | ok x => exact h.2
    | error e => trivial⟩) (look_lockedProduct hA hop user n hpend)
  refine Body.look hΓ hlook fun x w1 h1 ⟨hrow, hpk, howner, hlive, hlock⟩ => ?_
  have hpend1 := h1.pend.trans hpend
  split
  · exact Body.ret hΓ (.refused hpend1)
  · next hversion =>
      rw [bne_iff_ne, not_not] at hversion
      refine Body.look hΓ (look_currentTimestamp anyError_faults) fun now w2 h2 _ => ?_
      refine Body.look hΓ Look.fresh fun t w3 h3 _ => ?_
      have h13 : Still Γ w1 w3 := h2.trans hΓ h3
      refine Body.bind hΓ (body_updateRows hΓ anyError_faults fun held _ hlocks s =>
        hA.leave _ _ _ (respects_updateProducts hlocks fun _ => rfl))
        fun _ w4 h4 ⟨hp4, _⟩ => Body.ret hΓ ?_
      have hnear := h13.toNear.trans hΓ h4.toNear
      refine .deleted x now t (hnear.held hlock) ((hA.same hnear hlock).1 x hrow rfl)
        ⟨hpk, howner, hlive, hversion.symm⟩ ?_
      rw [hp4, h13.pend, hpend1]
      rfl

/-- **SPECIFICATION** of `product_delete`, which makes no observations. -/
theorem wp_productDelete (hA : Abides p Γ) (hop : OperationalFaults Γ) (user n : Nat)
    (version : Int) (hedit : ∀ held s f, Γ.leave held s (f s) →
      EditEnd (DeleteEdit user n version) held s f → Γ.guar held s (f s)) (h : Unchanged w) :
    wp (mute Γ) (productDelete user n version) (EditPost (DeleteEdit user n version)) w := by
  have hM := mute_abides hA
  refine wp_bind (wp_mono ?_ (wp_unchanged (Γ := mute Γ) (Top.select _)
    (look_fetch (Γ := mute (mute Γ)) anyError_faults _) h))
  rintro (e | found) w1 ⟨h1, -⟩
  · exact editPost_error
  rw [onOk_ok]
  cases found with
  | none => exact editPost_error
  | some x =>
      have hwp := wp_transaction (Γ := mute Γ) hM.lawful (F := anyError) (w := w1)
        (m := productDeleteBody user n version)
        (Q := fun r w' => (∀ status, r = .ok status → (status = 302 →
          Edited (DeleteEdit user n version) w'.sess.hist) ∧ (status ≠ 302 →
          ∀ e ∈ commitsOf w'.sess.hist, e.2 = e.1)))
        (P := fun _ status w2 => DeleteBodyEnd user n version w2 status) h1.idle
        (fun w' he => body_productDelete hM hop user n version (begin_pend_id h1.idle he))
        anyError_faults (fun e w3 _ _ _ _ status hs => nomatch hs) ?_
      · refine wp_mono ?_ (wp_mute (Γ := mute Γ) [] h1.marks hwp)
        rintro r w2 ⟨hr, hmarks⟩
        refine ⟨fun h302 => (hr 302 h302).1 rfl, fun status hs hne =>
          ⟨(hr status hs).2 hne, fun _ _ _ => ?_⟩⟩
        exact ⟨fun hm => (nomatch hmarks _ _ _ hm), fun hm => nomatch hmarks _ _ _ hm⟩
      · intro w' status w2 w3 he hw hend he3 hleave
        refine ⟨fun _ => ?_, fun _ _ => trivial⟩
        have hend3 := hend.near hM he3.still
        have hcommits : commitsOf w3.sess.hist = [] :=
          (commits_transaction he hw he3).trans h1.commits
        refine ⟨hedit _ _ _ hleave hend3.editEnd, ?_⟩
        rintro _ ⟨⟩
        cases hend3 with
        | refused hp =>
            refine ⟨fun hs => absurd hs (by decide), fun _ e he => ?_⟩
            rcases List.mem_cons.mp he with rfl | he
            · exact view_of_id hp
            · rw [hcommits] at he
              exact nomatch he
        | deleted x now t hlock hx hfits hp =>
            refine ⟨fun _ => edited_publish (g := archive now t) hx ⟨hfits, now, t, rfl⟩ ?_,
              fun hne => absurd rfl hne⟩
            rw [World.view, hp]

/-- **SPECIFICATION** of a request to delete a product: the user is that of the request. -/
theorem wp_productDeleteRequest (hA : Abides p Γ) (hop : OperationalFaults Γ) (r : Request)
    (n : Nat) (version : Int) (hedit : ∀ held s f, Γ.leave held s (f s) →
      EditEnd (DeleteEdit r.user n version) held s f → Γ.guar held s (f s)) (h : Unchanged w) :
    wp (mute Γ) (productDeleteRequest r n version) (EditPost (DeleteEdit r.user n version)) w := by
  have hM := mute_abides (mute_abides hA)
  refine wp_bind (wp_mono ?_ (wp_unchanged (Γ := mute Γ) (top_requestUser r)
    (look_requestUser_pk hM.lawful r) h))
  rintro (e | user) w1 ⟨h1, huser⟩
  · exact editPost_error
  have huser' : user.pk = r.user := huser
  rw [onOk_ok, huser']
  exact wp_productDelete hA hop r.user n version hedit h1

/-! ## `withdraw_account` -/

/-- The products of a withdrawal, at its commit. -/
theorem WithdrawalDone.catalogStep {user : Nat} {r : WithdrawalResult}
    (h : WithdrawalDone Γ user r w) (hi : CatalogInv w.db) :
    CatalogStep (WithdrawEdit user) w.db w.view := by
  cases h with
  | replayed _ hr =>
      rw [view_of_id hr.pend]
      exact (CatalogQuiet.mk hi List.prefix_rfl fun _ _ => galleryKept_same rfl).step
  | withdrawn u now scope favorites notifications huser hw =>
      subst huser
      have hproducts : w.view.products = (updateProducts (availableProducts u scope)
        (archive now now) w.db).products := hw.writes.products w.db
      have himages : w.view.productImages = w.db.productImages := by
        rw [World.view, hw.writes.rest w.db]
      have hpks : w.view.products.map (·.pk) = w.db.products.map (·.pk) := by
        rw [hproducts, updateProducts, List.map_map]
        refine List.map_congr_left fun y _ => ?_
        show (if _ then archive now now y else y).pk = y.pk
        split <;> rfl
      refine ⟨⟨by rw [hpks]; exact hi.products, by rw [himages]; exact hi.images⟩,
        w.view.products, [], (List.append_nil _).symm, ?_⟩
      rw [hproducts]
      show List.Forall₂ _ _ (w.db.products.map _)
      rw [List.forall₂_map_right_iff]
      refine List.forall₂_same.mpr fun y hy => ?_
      by_cases havailable : y.pk ∈ availableProducts u scope
      · rw [if_pos (List.contains_iff_mem.mpr havailable)]
        obtain ⟨z, hz, hpk⟩ := List.mem_map.mp havailable
        obtain ⟨hz, hcond⟩ := List.mem_filter.mp hz
        have hyz : z = y := hi.eq_of_pk (hw.locked.products z hz).1 hy hpk
        rw [Bool.and_eq_true, Bool.and_eq_true, beq_iff_eq, Option.isNone_iff_eq_none] at hcond
        subst hyz
        exact Or.inr ⟨hcond.1.1, hcond.1.2, now, rfl⟩
      · rw [if_neg fun hc => havailable (List.contains_iff_mem.mp hc)]
        refine Or.inl ⟨rfl, galleryKept_same ?_⟩
        rw [galleryOf, himages]
        rfl

/-- A withdrawal leaves galleries alone. -/
theorem WithdrawalDone.galleryRespects {user : Nat} {r : WithdrawalResult}
    (h : WithdrawalDone Γ user r w) : GalleryRespects w.sess.held w.db w.view := by
  refine galleryRespects_same ?_
  cases h with
  | replayed _ hr => rw [view_of_id hr.pend]
  | withdrawn u now scope favorites notifications _ hw =>
      rw [World.view, hw.writes.rest w.db]

/-! ## Every run -/

/-- The context of transactions that follow the locking rules, with those of galleries,
    and make `edits` only. -/
def catalogCtx (p : Platform) (step : Store → Store → Prop)
    (shown : Obs → Nat → Store → Prop) : Ctx Store Lock Exn Obs :=
  also (market p ⟨fun _ _ => True, fun _ => step⟩ (fun _ _ _ => True) shown) marketDb
    galleryDiscipline

theorem catalogCtx_abides (p : Platform) (step : Store → Store → Prop)
    (shown : Obs → Nat → Store → Prop) : GalleryAbides p (catalogCtx p step shown) := by
  have hA : Abides p (market p ⟨fun _ _ => True, fun _ => step⟩ (fun _ _ _ => True) shown) :=
    market_abides ⟨fun _ => trivial, fun _ _ _ _ _ => trivial⟩ fun _ _ => trivial
  exact ⟨⟨also_lawful hA.lawful _ galleryDiscipline_lawful,
    fun held s s' h => hA.rely held s s' h.1,
    hA.leave, hA.deferred⟩, fun _ _ _ h => h.2⟩

/-- The context of transactions that make no edits. -/
def foreignCtx (p : Platform) : Ctx Store Lock Exn Obs :=
  catalogCtx p (fun s s' => CatalogInv s → CatalogQuiet s s') fun _ _ _ => True

/-- Any transactions that follow the locking rules, and leave the products that are there
    and their galleries alone, up to promotions. -/
def EditForeign (p : Platform) (m : M Unit) : Prop :=
  Top (foreignCtx p) m

/-- What a session runs: a request to edit a product, a withdrawal, or something else. -/
inductive EditOp (p : Platform) where
  | update (storage : FileStorage) (r : Request) (product : Nat)
      (form : Option ProductUpdateFields)
  | delete (r : Request) (product : Nat) (version : Int)
  | withdraw (user : Nat) (password : String)
  | other (m : M Unit) (h : EditForeign p m)

namespace EditOp

/-- The program of an operation, and the HTTP status of a request. -/
def run : EditOp p → M (Option Nat)
  | .update storage r product form => do
      let status ← productUpdate p storage r product form
      return some status
  | .delete r product version => do
      let status ← productDeleteRequest r product version
      return some status
  | .withdraw user password => do
      let _ ← withdrawAccount user password
      return none
  | .other m _ => do
      m
      return none

/-- The version that a request submits, if its form is valid. -/
def submission : EditOp p → Option Submission
  | .update _ r product form => form.map fun fields => ⟨r.user, product, fields.version⟩
  | .delete r product version => some ⟨r.user, product, version⟩
  | _ => none

/-- What the operation makes of a product. -/
def makes : EditOp p → Product → Product → Prop
  | .update _ r product form => UpdateEdit p r.user product form
  | .delete r product version => DeleteEdit r.user product version
  | .withdraw user _ => WithdrawEdit user
  | .other _ _ => fun _ _ => False

/-- What the operation may commit. -/
def step (op : EditOp p) (s s' : Store) : Prop :=
  (CatalogInv s → CatalogStep op.makes s s') ∧ match op with
    | .delete r product version => s' = s ∨ Submission.Current ⟨r.user, product, version⟩ s
    | _ => True

/-- What the operation shows of its observations. -/
def shows (op : EditOp p) (v : Obs) (_ : Nat) (s : Store) : Prop :=
  match op with
  | .update .. => IsEditing v → ∀ sub, op.submission = some sub → sub.Current s
  | .delete .. => False
  | _ => True

/-- What the operation ends with. -/
structure Post (op : EditOp p) (r : Except Exn (Option Nat)) (w : World Store Lock Obs) :
    Prop where
  edited : r = .ok (some 302) → Edited op.makes w.sess.hist
  refused : ∀ status, r = .ok (some status) → status ≠ 302 → NothingDone w.sess.hist

/-- Whatever an operation makes of a product is an edit. -/
theorem makes_edit {op : EditOp p} (h : op.makes x x') : Edit x x' := by
  cases op with
  | update storage r product form => exact UpdateEdit.edit h
  | delete r product version => exact DeleteEdit.edit h
  | withdraw user password => exact WithdrawEdit.edit h
  | other m hm => exact h.elim

/-- A request edits the product of the version that it submits. -/
theorem makes_fits {op : EditOp p} {sub : Submission} (hsub : op.submission = some sub)
    (h : op.makes x x') : sub.Fits x := by
  cases op with
  | update storage r product form =>
      obtain ⟨fields, rfl, hfits, -⟩ := h
      cases hsub
      exact hfits
  | delete r product version =>
      cases hsub
      exact h.1
  | withdraw user password => exact nomatch hsub
  | other m hm => exact h.elim

/-- The context of a session that runs the operation. -/
def ctx (op : EditOp p) : Ctx Store Lock Exn Obs := catalogCtx p op.step op.shows

/-- The status of a request is what it answers. -/
theorem post_of_edit {op : EditOp p} {m : M Nat}
    (h : wp Γ m (EditPost op.makes) w) :
    wp Γ (do let status ← m; return some status) op.Post w := by
  refine wp_bind (wp_mono ?_ h)
  rintro (e | status) w1 hpost
  · exact ⟨fun he => (nomatch he), fun _ he => nomatch he⟩
  · exact ⟨fun he => hpost.edited (by cases he; rfl),
      fun _ he hne => hpost.refused _ (by cases he; rfl) hne⟩

/-- An operation that is no request has no status. -/
theorem post_none {op : EditOp p} {r : Except Exn (Option Nat)} (h : ∀ a, r = .ok a → a = none) :
    op.Post r w :=
  ⟨fun he => (nomatch h _ he), fun _ he => nomatch h _ he⟩

/-- **OPERATIONS**, each in its context. -/
theorem wp_run (op : EditOp p) (h : Unchanged w) : wp op.ctx op.run op.Post w := by
  have hG : GalleryAbides p op.ctx := catalogCtx_abides p _ _
  have hop : OperationalFaults op.ctx := fun _ he => he
  cases op with
  | update storage r product form =>
      refine post_of_edit (wp_productUpdate hG hop (fun key now s => ?_) r product form
        (fun k now s hcurrent => ?_)
        ⟨fun held s f hleave hend => ?_, fun held s f hleave hend => ?_⟩
        h)
      · exact ⟨fun hv => hv.elim, fun hv => hv.elim⟩
      · intro _ sub hsub
        obtain ⟨fields, hform, rfl⟩ := Option.map_eq_some_iff.mp hsub
        exact hcurrent fields hform
      · exact ⟨⟨hleave.1, trivial, hend.step, trivial⟩, hend.respects⟩
      · exact ⟨⟨hleave.1, trivial, fun hi => (hend.quiet hi).step, trivial⟩, hend.respects⟩
  | delete r product version =>
      refine post_of_edit (wp_of_mute (wp_productDeleteRequest hG.abides hop r product version
        (fun held s f hleave hend => ?_) h))
      refine ⟨⟨hleave.1, trivial, hend.step, ?_⟩, hend.respects⟩
      cases hend with
      | kept hf => exact Or.inl (hf s)
      | edited x g _ hx hedit => exact Or.inr ⟨x, hx, hedit.1⟩
  | withdraw user password =>
      refine wp_bind (wp_withdrawAccount hG.abides user password h.idle
        (fun r w2 _ hleave hdone => ⟨⟨⟨hleave.1, trivial, hdone.catalogStep, trivial⟩,
          hdone.galleryRespects⟩, post_none fun _ he => ?_⟩)
        fun e w3 _ _ => post_none fun _ he => ?_)
      · cases he
        rfl
      · exact nomatch he
  | other m hm =>
      have hjoins : Joins (foreignCtx p) (foreignCtx p) (ctx (.other m hm)) := {
        deferred := ⟨rfl, rfl⟩
        fault := fun _ he => ⟨he, he⟩
        rely := fun _ _ _ hr => ⟨hr, hr⟩
        guar := fun _ _ _ hg _ =>
          ⟨⟨hg.1.1, trivial, fun hi => (hg.1.2.2 hi).step, trivial⟩, hg.2⟩
        given := fun _ _ _ hv => ⟨hv, hv⟩
        shown := fun _ _ _ _ _ => trivial }
      refine wp_bind (wp_mono ?_ (hm.within hjoins w h.idle))
      rintro (e | _) w1 h1
      · exact post_none fun _ he => nomatch he
      · exact post_none fun _ he => by cases he; rfl

end EditOp

/-- A commit keeps the primary keys of the products, and an outdated version outdated. -/
theorem CatalogStep.outdated (h : CatalogStep edits s s') (hedit : ∀ x x', edits x x' → Edit x x')
    {sub : Submission} (hout : sub.Outdated s) : sub.Outdated s' := by
  obtain ⟨x, hx, hpk, hlt⟩ := hout
  obtain ⟨x', hx', hrow⟩ := h.row hx
  rcases hrow with ⟨rfl, -⟩ | he
  · exact ⟨x', hx', hpk, hlt⟩
  · have hraise := hedit _ _ he
    refine ⟨x', hx', (congrArg Prod.fst hraise.identity).trans hpk, ?_⟩
    rw [hraise.version]
    omega

/-- An archived product stays as it is. -/
theorem CatalogStep.archived (h : CatalogStep edits s s') (hedit : ∀ x x', edits x x' → Edit x x')
    (hx : x ∈ s.products) (harchived : x.archivedAt ≠ none) : x ∈ s'.products := by
  obtain ⟨x', hx', hrow⟩ := h.row hx
  rcases hrow with ⟨rfl, -⟩ | he
  · exact hx'
  · exact absurd (hedit _ _ he).live harchived

/-- A version is not current and outdated at once. -/
theorem Submission.Current.not_outdated {sub : Submission} (h : sub.Current s)
    (hi : CatalogInv s) : ¬ sub.Outdated s := by
  rintro ⟨y, hy, hpk, hlt⟩
  obtain ⟨x, hx, hfits⟩ := h
  have hxy : x = y := hi.eq_of_pk hx hy (hfits.product.trans hpk.symm)
  subst hxy
  have hversion := hfits.version
  omega

/-- The edit of a version makes it outdated. -/
theorem EditOp.outdated_of_edit {op : EditOp p} {sub : Submission} (hsub : op.submission = some sub)
    (h : EditsIn op.makes (s, s')) : sub.Outdated s' := by
  obtain ⟨x, hx, x', hx', hmakes⟩ := h
  have hfits := EditOp.makes_fits hsub hmakes
  have hraise := EditOp.makes_edit hmakes
  have hversion := hfits.version
  refine ⟨x', hx', (congrArg Prod.fst hraise.identity).trans hfits.product, ?_⟩
  rw [hraise.version]
  omega

section Runs

variable {ι : Type} [DecidableEq ι] {ops : ι → EditOp p} {now : Time}
  {c c' d : Config ι Store Lock Exn Obs (Option Nat)} {i j : ι}

omit [DecidableEq ι] in
theorem editOps_fits (ops : ι → EditOp p) :
    Fits (postgres fun _ _ => False) (fun i => (ops i).ctx) :=
  fits_showing (fits_also (market_fits p (fun i => ⟨fun _ _ => True, fun _ => (ops i).step⟩)
    (fun _ => ⟨fun _ => trivial, fun _ _ _ _ _ => trivial⟩) (fun _ _ _ => True)
    fun _ _ _ => True) galleryDiscipline_lawful fun _ _ h => False.elim h)
    fun i => (ops i).shows

omit [DecidableEq ι] in
theorem edits_given : AllSee (fun i => (ops i).ctx.given) c := fun _ _ _ _ _ => trivial

omit [DecidableEq ι] in
theorem unchanged_start : Unchanged ⟨s, now, {}⟩ :=
  ⟨⟨rfl, rfl, rfl⟩, rfl, fun _ _ _ h => h⟩

omit [DecidableEq ι] in
/-- Every operation is correct in its own context. -/
theorem edits_supported : Supported (fun i => (ops i).ctx) (fun i => (ops i).Post)
    (Config.start s now fun i => (ops i).run) :=
  supported_start (editOps_fits ops).lawful fun i => (ops i).wp_run unchanged_start

/-- **RUN**: what every edit keeps is kept from one store of a run to a later one. -/
theorem edits_onward {J : Store → Prop} (hJ : ∀ op : EditOp p, ∀ s s', J s → CatalogInv s →
      CatalogStep op.makes s s' → J s')
    (hr : Reached s now (fun i => (ops i).run) c)
    (hr' : Reaches (postgres fun _ _ => False) c c') (hi : CatalogInv c.db) (h : J c.db) :
    CatalogInv c'.db ∧ J c'.db := by
  refine run_onward (J := fun d => CatalogInv d ∧ J d) (editOps_fits ops) edits_supported
    (fun _ _ _ h => False.elim h) (fun i held d d' hj hg => ?_) hr hr' edits_given ⟨hi, h⟩
  have hstep : CatalogStep (ops i).makes d d' := hg.1.2.2.1 hj.1
  exact ⟨hstep.inv, hJ _ _ _ hj.2 hj.1 hstep⟩

/-- **INVARIANT** of every run. -/
theorem catalogInv_reached (h : CatalogInv s) (hr : Reached s now (fun i => (ops i).run) c) :
    CatalogInv c.db :=
  (edits_onward (J := fun _ => True) (fun _ _ _ _ _ _ => trivial) (Reaches.refl _ _) hr h
    trivial).1

/-- **RUN**: a step of a session. -/
theorem edits_step (h : CatalogInv s) (hr : Reached s now (fun i => (ops i).run) c)
    (hs : Step (postgres fun _ _ => False) (some i) c c') :
    CatalogStep (ops i).makes c.db c'.db := by
  have hinv := catalogInv_reached h hr
  rcases run_step (editOps_fits ops) edits_supported hr hs edits_given with hdb | hg
  · rw [hdb]
    exact (CatalogQuiet.mk hinv List.prefix_rfl fun _ _ => galleryKept_same rfl).step
  · exact hg.1.2.2.1 hinv

/-- **RUN**: a version that is outdated stays so. -/
theorem outdated_onward (h : CatalogInv s) (hr : Reached s now (fun i => (ops i).run) c)
    (hr' : Reaches (postgres fun _ _ => False) c c') {sub : Submission}
    (hout : sub.Outdated c.db) : sub.Outdated c'.db :=
  (edits_onward (J := sub.Outdated) (fun _ _ _ hj _ hstep =>
    hstep.outdated (fun _ _ => EditOp.makes_edit) hj) hr hr' (catalogInv_reached h hr) hout).2

/-- **RUN**: a request that has done something found the version that it submits current. -/
theorem current_of_done (hr : Reached s now (fun i => (ops i).run) c)
    (hnone : (c.sess i).hist = []) (hr' : Reaches (postgres fun _ _ => False) c c')
    {sub : Submission} (hsub : (ops i).submission = some sub)
    (hdone : ¬ NothingDone (c'.sess i).hist) :
    ∃ d, Reaches (postgres fun _ _ => False) c d ∧ Reaches (postgres fun _ _ => False) d c' ∧
      sub.Current d.db := by
  have hreached : Reached s now (fun i => (ops i).run) c' := hr.trans hr'
  obtain ⟨-, -, hshown⟩ := run_supported (editOps_fits ops) edits_supported hreached edits_given
  cases hop : ops i with
  | update storage r product form =>
      -- it has found the version current when it began to edit
      have hediting : ∃ t db v, Event.marked t db v ∈ (c'.sess i).hist ∧ IsEditing v := by
        by_contra hnever
        push Not at hnever
        have hwp : wp (silent (ops i).ctx IsEditing fun _ => False)
            (productUpdate p storage r product form) (fun _ _ => True) ⟨s, now, {}⟩ :=
          wp_silentUpdate (catalogCtx_abides p _ _).abides (fun _ he => he) r product form
            ⟨rfl, rfl, rfl⟩
        obtain ⟨hcommits, hmarks⟩ := run_silent (i := i) (P := fun _ _ => True) (editOps_fits ops)
          edits_supported (by
            show wp _ (ops i).run _ _
            rw [hop] at hwp ⊢
            exact wp_bind (wp_mono (fun x _ _ => by cases x <;> trivial) hwp)) hreached
          edits_given hnever
        exact hdone ⟨hcommits, fun t db key => ⟨hmarks t db _, hmarks t db _⟩⟩
      obtain ⟨t, db, v, hmark, hv⟩ := hediting
      obtain ⟨d, hcd, hdc, rfl⟩ := mark_reached hr' hnone hmark
      refine ⟨d, hcd, hdc, ?_⟩
      have hshows : (ops i).shows v t d.db := hshown i t d.db v hmark
      rw [hop] at hshows hsub
      exact hshows hv sub hsub
  | delete r product version =>
      have hmute : ∀ t db v, Event.marked t db v ∉ (c'.sess i).hist := fun t db v hm => by
        have hshows : (ops i).shows v t db := hshown i t db v hm
        rw [hop] at hshows
        exact hshows
      have hchanged : ∃ e ∈ commitsOf (c'.sess i).hist, e.2 ≠ e.1 := by
        by_contra hnever
        push Not at hnever
        exact hdone ⟨hnever, fun t db key => ⟨hmute t db _, hmute t db _⟩⟩
      obtain ⟨⟨s1, s2⟩, he, hne⟩ := hchanged
      have hcommits : commitsOf (c.sess i).hist = [] := by
        rw [hnone]
        rfl
      obtain ⟨d, d', hcd, hs, hdc, rfl, rfl⟩ := commit_reached hr' hcommits he
      refine ⟨d, hcd, Reaches.trans (Reaches.step (Reaches.refl _ _) hs) hdc, ?_⟩
      rcases run_step (editOps_fits ops) edits_supported (hr.trans hcd) hs edits_given with hdb | hg
      · exact absurd hdb hne
      · have hstep : (ops i).step d.db d'.db := hg.1.2.2
        rw [hop] at hstep hsub
        cases hsub
        rcases hstep.2 with hdb | hcurrent
        · exact absurd hdb hne
        · exact hcurrent
  | withdraw user password =>
      rw [hop] at hsub
      exact nomatch hsub
  | other m hm =>
      rw [hop] at hsub
      exact nomatch hsub

/-- **RUN**: a request that begins with an outdated version does nothing. -/
theorem stale_nothing (h : CatalogInv s) (hr : Reached s now (fun i => (ops i).run) c)
    (hnone : (c.sess i).hist = []) (hr' : Reaches (postgres fun _ _ => False) c c')
    {sub : Submission} (hsub : (ops i).submission = some sub) (hout : sub.Outdated c.db) :
    NothingDone (c'.sess i).hist := by
  by_contra hdone
  obtain ⟨d, hcd, -, hcurrent⟩ := current_of_done hr hnone hr' hsub hdone
  exact hcurrent.not_outdated (catalogInv_reached h (hr.trans hcd))
    (outdated_onward h hr hcd hout)

/-- **RUN**: after the edit of a version no request edits it. -/
theorem edits_once (h : CatalogInv s) (hr : Reached s now (fun i => (ops i).run) c)
    (hs : Step (postgres fun _ _ => False) (some i) c c')
    (hedit : EditsIn (ops i).makes (c.db, c'.db))
    {e e' : Config ι Store Lock Exn Obs (Option Nat)}
    (hr' : Reaches (postgres fun _ _ => False) c' e) {sub sub' : Submission}
    (hsub : (ops i).submission = some sub) (hsub' : (ops j).submission = some sub')
    (hproduct : sub'.product = sub.product) (hversion : sub'.version = sub.version) :
    ¬ EditsIn (ops j).makes (e.db, e'.db) := by
  rintro ⟨x, hx, x', hx', hmakes⟩
  have hreached : Reached s now (fun i => (ops i).run) c' := Reaches.step hr hs
  have hout : sub.Outdated e.db :=
    outdated_onward h hreached hr' (EditOp.outdated_of_edit hsub hedit)
  have hcurrent : sub'.Current e.db := ⟨x, hx, EditOp.makes_fits hsub' hmakes⟩
  refine hcurrent.not_outdated (catalogInv_reached h (hreached.trans hr')) ?_
  obtain ⟨y, hy, hpk, hlt⟩ := hout
  exact ⟨y, hy, hpk.trans hproduct.symm, hversion ▸ hlt⟩

end Runs

/-- The products, said of one configuration of a run. -/
structure NoLostEdit {ι : Type} [DecidableEq ι] {p : Platform} (ops : ι → EditOp p)
    (c : Config ι Store Lock Exn Obs (Option Nat)) : Prop where
  /-- A step makes the edits of its session only, and leaves the rest of the products and
      their galleries as they are, but for promotions. -/
  step : ∀ i c', Step (postgres fun _ _ => False) (some i) c c' →
    CatalogStep (ops i).makes c.db c'.db
  idle : ∀ c', Step (postgres fun _ _ => False) none c c' → c'.db = c.db
  raises : ∀ i x x', (ops i).makes x x' → Edit x x'
  /-- After the edit of a version there is no other. -/
  once : ∀ i j sub sub', (ops i).submission = some sub → (ops j).submission = some sub' →
    sub'.product = sub.product → sub'.version = sub.version →
    ∀ c', Step (postgres fun _ _ => False) (some i) c c' → EditsIn (ops i).makes (c.db, c'.db) →
    ∀ d d', Reaches (postgres fun _ _ => False) c' d →
      Step (postgres fun _ _ => False) (some j) d d' → ¬ EditsIn (ops j).makes (d.db, d'.db)
  accepted : ∀ i, c.prog i = Prog.ofAnswer (.ok (some 302)) →
    Edited (ops i).makes (c.sess i).hist
  refused : ∀ i status, c.prog i = Prog.ofAnswer (.ok (some status)) → status ≠ 302 →
    NothingDone (c.sess i).hist
  /-- What a request does, it does after its version was found current, -/
  inTime : ∀ i sub, (ops i).submission = some sub → (c.sess i).hist = [] →
    ∀ c', Reaches (postgres fun _ _ => False) c c' → ¬ NothingDone (c'.sess i).hist →
    ∃ d, Reaches (postgres fun _ _ => False) c d ∧ Reaches (postgres fun _ _ => False) d c' ∧
      sub.Current d.db
  /-- and a request with a stale version does nothing. -/
  stale : ∀ i sub, (ops i).submission = some sub → (c.sess i).hist = [] →
    sub.Outdated c.db → ∀ c', Reaches (postgres fun _ _ => False) c c' →
    NothingDone (c'.sess i).hist
  archived : ∀ x ∈ c.db.products, x.archivedAt ≠ none →
    ∀ c', Reaches (postgres fun _ _ => False) c c' → x ∈ c'.db.products

/-- **NO LOST EDIT**: in every interleaving of requests to update and to delete products, of
    withdrawals, and of others that leave the products alone. -/
theorem no_lost_edit {ι : Type} [DecidableEq ι] {p : Platform} {ops : ι → EditOp p} {s : Store}
    {now : Time} {c : Config ι Store Lock Exn Obs (Option Nat)} (h : CatalogInv s)
    (hr : Reached s now (fun i => (ops i).run) c) : NoLostEdit ops c := by
  have hended : ∀ {i r}, c.prog i = Prog.ofAnswer r →
      ∃ w : World Store Lock Obs, (c.sess i).hist = w.sess.hist ∧ (ops i).Post r w := by
    intro i r hprog
    obtain ⟨w, he, hpost⟩ := run_ended (editOps_fits ops) edits_supported hr edits_given hprog
    exact ⟨w, congrArg Session.hist he.sess, hpost⟩
  constructor
  case step => exact fun i c' hs => edits_step h hr hs
  case idle =>
    intro c' hs
    cases hs with
    | tick _ t ht => rfl
    | env _ s hs => exact False.elim hs
  case raises => exact fun i x x' => EditOp.makes_edit
  case once =>
    intro i j sub sub' hsub hsub' hproduct hversion c' hs hedit d d' hr' _
    exact edits_once h hr hs hedit hr' hsub hsub' hproduct hversion
  case accepted =>
    intro i hprog
    obtain ⟨w, hhist, hpost⟩ := hended hprog
    rw [hhist]
    exact hpost.edited rfl
  case refused =>
    intro i status hprog hne
    obtain ⟨w, hhist, hpost⟩ := hended hprog
    rw [hhist]
    exact hpost.refused status rfl hne
  case inTime =>
    intro i sub hsub hnone c' hr' hdone
    exact current_of_done hr hnone hr' hsub hdone
  case stale =>
    intro i sub hsub hnone hout c' hr'
    exact stale_nothing h hr hnone hr' hsub hout
  case archived =>
    intro x hx harchived c' hr'
    exact (edits_onward (J := fun d => x ∈ d.products) (fun _ _ _ hj _ hstep =>
      hstep.archived (fun _ _ => EditOp.makes_edit) hj harchived) hr hr'
      (catalogInv_reached h hr) hx).2

/-- A product for sale. -/
def lampForSale : Store :=
  { users := [{ pk := 1, username := "seller" }],
    products := [{ pk := 11, owner := 1, title := "lamp" }] }

/-- Its owner adds an image to it and deletes it, from two forms of one version. -/
def editTwice : Fin 2 → EditOp plainPlatform
  | 0 => .update plainStorage ⟨1, "session", 0⟩ 11 (some {
      title := "lamp", description := "as new", price := 5, category := "OTHER", version := 1,
      images := [{ suffix := ".png", sha256 := "", byteSize := 1, width := 1, height := 1 }] })
  | 1 => .delete ⟨1, "session", 0⟩ 11 1

/-- The deletion is refused. -/
theorem no_lost_edit_twice : ∃ c : Config (Fin 2) Store Lock Exn Obs (Option Nat),
    Reached lampForSale 1000 (fun i => (editTwice i).run) c ∧
    c.db.products.map (fun x => (x.version, x.description, x.archivedAt)) = [(2, "as new", none)] ∧
    NoLostEdit editTwice c := by
  have hplay : (play validateBalancedJournal [.run 0 200 (· + 1), .run 1 100 id]
      (Config.start (V := Obs) lampForSale 1000 fun i => (editTwice i).run)).map
        (fun d => d.db.products.map fun x => (x.version, x.description, x.archivedAt)) =
      some [(2, "as new", none)] := by decide +kernel
  obtain ⟨c, hr, hproducts⟩ := reaches_of_play (D := postgres fun _ _ => False)
    (f := fun d => _) hplay
  exact ⟨c, hr, hproducts, no_lost_edit ⟨by decide, by decide⟩ hr⟩

/-- **PROMOTION**: the row of an image changes after the commit of its edit, and the version
    of the product does not. -/
theorem promoted_without_version : ∃ c c' : Config (Fin 2) Store Lock Exn Obs (Option Nat),
    Reached lampForSale 1000 (fun i => (editTwice i).run) c ∧
    Reaches (postgres fun _ _ => False) c c' ∧
    (c.db.products.map (·.version) = [2] ∧
      (galleryOf 11 c.db).map (·.promotionState) = [.pending]) ∧
    c'.db.products.map (·.version) = [2] ∧
    (galleryOf 11 c'.db).map (·.promotionState) = [.promoted] := by
  let seen (d : Config (Fin 2) Store Lock Exn Obs (Option Nat)) :=
    (d.db.products.map (·.version), (galleryOf 11 d.db).map (·.promotionState))
  have hplay : ((play validateBalancedJournal [.run 0 30 (· + 1)]
      (Config.start lampForSale 1000 fun i => (editTwice i).run)).bind fun d =>
      (play validateBalancedJournal [.run 0 170 (· + 1)] d).map fun d' => (seen d, seen d')) =
      some (([2], [.pending]), ([2], [.promoted])) := by decide +kernel
  obtain ⟨c, c', hr, hr', hc, hc'⟩ := reaches_of_plays (D := postgres fun _ _ => False)
    (f := seen) (g := seen) hplay
  exact ⟨c, c', hr, hr', Prod.mk.inj hc, Prod.mk.inj hc'⟩

end Market
