import Marketplace.Catalog
import Marketplace.TxnInvariants
import Marketplace.UserRuns

/-! # What the gallery code does to the database

    A replacement deletes the rows of one product and inserts pending ones; a promotion,
    after the commit, gives a pending row its own key.  The row lock of an image keeps its
    row as it is, which is what a promotion rests on; that rule is here a discipline of its
    own, beside the locking rules of the services. -/

namespace Market

open TxnProgram TxnInterleaving TxnLogic TxnProtection TxnSoundness TxnBody TxnFrames
  TxnInvariants

variable {p : Platform} {Γ : Ctx Store Lock Exn Obs} {w w' : World Store Lock Obs}
  {s s' s'' : Store} {held : List Lock} {storage : FileStorage} {n : Nat} {α : Type}

/-! ## The lock of an image -/

/-- The rows of a primary key. -/
def imagesAt (n : Nat) (s : Store) : List ProductImage := s.productImages.filter (·.pk == n)

/-- What the row lock of an image protects: its row, when it is there. -/
def galleryDiscipline : Discipline Store Lock where
  same l s s' := match l with
    | .row .productImage n => imagesAt n s ≠ [] → imagesAt n s' = imagesAt n s
    | _ => True
  keep _ _ := True

/-- The rules compose. -/
theorem galleryDiscipline_lawful : galleryDiscipline.Lawful where
  same_refl l s := by
    cases l with
    | row t n =>
        cases t with
        | productImage => exact fun _ => rfl
        | _ => trivial
    | _ => trivial
  same_trans l s s' s'' h h' := by
    cases l with
    | row t n =>
        cases t with
        | productImage =>
            intro hne
            have h1 : imagesAt n s' = imagesAt n s := h hne
            have h2 : imagesAt n s'' = imagesAt n s' := h' (by rw [h1]; exact hne)
            exact h2.trans h1
        | _ => trivial
    | _ => trivial
  keep_refl _ := trivial
  keep_trans _ _ _ _ _ := trivial

/-- The database of the marketplace, without clients outside it. -/
abbrev marketDb : Database Store Lock Exn := postgres fun _ _ => False

/-- The images that others may have locked are left alone. -/
def GalleryRespects (held : List Lock) (s s' : Store) : Prop :=
  galleryDiscipline.guar marketDb held s s'

/-- What a write has to show: open images stay. -/
theorem galleryRespects_of (h : ∀ n, Open held (.row .productImage n) → imagesAt n s ≠ [] →
    imagesAt n s' = imagesAt n s) : GalleryRespects held s s' := by
  refine ⟨trivial, fun l hl => ?_⟩
  cases l with
  | row t n =>
      cases t with
      | productImage => exact h n hl
      | _ => trivial
  | _ => trivial

theorem galleryRespects_same (h : s'.productImages = s.productImages) :
    GalleryRespects held s s' := by
  refine galleryRespects_of fun n _ _ => ?_
  rw [imagesAt, h]
  rfl

/-- A context in which the others also respect the locks of images. -/
structure GalleryAbides (p : Platform) (Γ : Ctx Store Lock Exn Obs) : Prop where
  abides : Abides p Γ
  rely : ∀ held s s', Γ.rely held s s' → galleryDiscipline.rely held s s'

/-- An image that is locked and there stays as it is. -/
theorem GalleryAbides.same (hG : GalleryAbides p Γ) (h : Near Γ w w')
    (hl : .row .productImage n ∈ w.sess.held) (hne : imagesAt n w.db ≠ []) :
    imagesAt n w'.db = imagesAt n w.db :=
  (hG.rely _ _ _ h.db).2 _ hl hne

/-- The image of a key. -/
theorem mem_imagesAt {r : ProductImage} : r ∈ imagesAt n s ↔ r ∈ s.productImages ∧ r.pk = n := by
  rw [imagesAt, List.mem_filter, beq_iff_eq]

/-- The rows of a locked image, seen from any time under the lock. -/
theorem GalleryAbides.mem_before (hG : GalleryAbides p Γ) (h : Near Γ w w') {r x : ProductImage}
    (hl : .row .productImage r.pk ∈ w.sess.held) (hr : r ∈ w.db.productImages)
    (hx : x ∈ w'.db.productImages) (hpk : x.pk = r.pk) : x ∈ w.db.productImages := by
  have hr' : r ∈ imagesAt r.pk w.db := mem_imagesAt.mpr ⟨hr, rfl⟩
  have hsame := hG.same h hl (List.ne_nil_of_mem hr')
  have hx' : x ∈ imagesAt r.pk w'.db := mem_imagesAt.mpr ⟨hx, hpk⟩
  rw [hsame] at hx'
  exact (mem_imagesAt.mp hx').1

/-- A locked image is not taken away by others. -/
theorem GalleryAbides.mem_after (hG : GalleryAbides p Γ) (h : Near Γ w w') {r : ProductImage}
    (hl : .row .productImage r.pk ∈ w.sess.held) (hr : r ∈ w.db.productImages) :
    r ∈ w'.db.productImages := by
  have hr' : r ∈ imagesAt r.pk w.db := mem_imagesAt.mpr ⟨hr, rfl⟩
  have hsame := hG.same h hl (List.ne_nil_of_mem hr')
  rw [← hsame] at hr'
  exact (mem_imagesAt.mp hr').1

/-! ## Writes -/

/-- An image takes its position of the product. -/
theorem respects_addImage {r : ProductImage} (hpk : .unique (.pk .productImage r.pk) ∈ held)
    (hposition : .unique (.productImagePosition r.product r.position) ∈ held) :
    Respects p held s (addImage r s) := by
  refine Respects.of_table .productImage ?_ { Keeps.refl s with } ?_ ?_ ?_
  · intro t ht
    cases t <;> first | rfl | exact absurd rfl ht
  · intro t n ht _
    cases t <;> exact absurd ht (by decide)
  · exact fun _ _ ht => absurd ht (by decide)
  · intro i hi ho h
    cases i with
    | pk t n =>
        cases hi
        exact index_of_append ho (fun hq => by rw [← eq_of_beq hq]; exact hpk) h
    | productImagePosition product position =>
        refine index_of_append ho (fun hq => ?_) h
        rw [Bool.and_eq_true, beq_iff_eq, beq_iff_eq] at hq
        rw [← hq.1, ← hq.2]
        exact hposition
    | _ => exact nomatch hi

/-- A write that takes rows of images away, or leaves their keys alone. -/
theorem respects_images (h : ∀ q : ProductImage → Bool, (∀ r r' : ProductImage,
      r'.pk = r.pk → r'.product = r.product → r'.position = r.position → q r' = q r) →
      s.productImages.any q = false → s'.productImages.any q = false)
    (hrest : s' = { s with productImages := s'.productImages }) : Respects p held s s' := by
  refine Respects.of_table .productImage ?_ ?_ ?_ ?_ ?_
  · intro t ht
    rw [hrest]
    cases t <;> first | rfl | exact absurd rfl ht
  · rw [hrest]
    exact { Keeps.refl s with }
  · intro t n ht _
    cases t <;> exact absurd ht (by decide)
  · exact fun _ _ ht => absurd ht (by decide)
  · intro i hi _ hp
    cases i with
    | pk t n =>
        cases hi
        exact h _ (fun r r' hpk _ _ => by rw [hpk]) hp
    | productImagePosition product position =>
        exact h _ (fun r r' _ hproduct hposition => by rw [hproduct, hposition]) hp
    | _ => exact nomatch hi

/-- The images of a product are deleted together. -/
theorem respects_removeImages (product : Nat) (pks : List Nat) :
    Respects p held s (removeImages product pks s) := by
  refine respects_images (fun q _ hany => ?_) rfl
  rw [List.any_eq_false] at hany ⊢
  exact fun r hr => hany r (List.mem_filter.mp hr).1

/-- A promotion rewrites two columns. -/
theorem respects_setPromoted (image : String) : Respects p held s (setPromoted n image s) := by
  refine respects_images (fun q hq hany => ?_) rfl
  rw [List.any_eq_false] at hany ⊢
  intro r hr
  obtain ⟨x, hx, rfl⟩ := List.mem_map.mp hr
  rw [hq x _ (promoteRow_pk ..) (promoteRow_product ..) (promoteRow_position ..)]
  exact hany x hx

/-- A deletion intent takes its storage key. -/
theorem respects_addIntent {r : ProductImageDeletionIntent}
    (hpk : .unique (.pk .deletionIntent r.pk) ∈ held)
    (hkey : .unique (.deletionIntentKey r.storageKey) ∈ held) :
    Respects p held s (addIntent r s) := by
  refine Respects.of_table .deletionIntent ?_ { Keeps.refl s with } ?_ ?_ ?_
  · intro t ht
    cases t <;> first | rfl | exact absurd rfl ht
  · intro t n ht _
    cases t <;> exact absurd ht (by decide)
  · exact fun _ _ ht => absurd ht (by decide)
  · intro i hi ho h
    cases i with
    | pk t n =>
        cases hi
        exact index_of_append ho (fun hq => by rw [← eq_of_beq hq]; exact hpk) h
    | deletionIntentKey key =>
        exact index_of_append ho (fun hq => by rw [← eq_of_beq hq]; exact hkey) h
    | _ => exact nomatch hi

/-- A write that takes intents away, or leaves their keys alone. -/
theorem respects_intents (h : ∀ q : ProductImageDeletionIntent → Bool,
      (∀ r r' : ProductImageDeletionIntent, r'.pk = r.pk → r'.storageKey = r.storageKey →
        q r' = q r) → s.deletionIntents.any q = false → s'.deletionIntents.any q = false)
    (hrest : s' = { s with deletionIntents := s'.deletionIntents }) : Respects p held s s' := by
  refine Respects.of_table .deletionIntent ?_ ?_ ?_ ?_ ?_
  · intro t ht
    rw [hrest]
    cases t <;> first | rfl | exact absurd rfl ht
  · rw [hrest]
    exact { Keeps.refl s with }
  · intro t n ht _
    cases t <;> exact absurd ht (by decide)
  · exact fun _ _ ht => absurd ht (by decide)
  · intro i hi _ hp
    cases i with
    | pk t n =>
        cases hi
        exact h _ (fun r r' hpk _ => by rw [hpk]) hp
    | deletionIntentKey key => exact h _ (fun r r' _ hkey => by rw [hkey]) hp
    | _ => exact nomatch hi

/-- The attempts of an intent are counted. -/
theorem respects_setAttempts (attempts : Nat) :
    Respects p held s (setAttempts n attempts s) := by
  refine respects_intents (fun q hq hany => ?_) rfl
  rw [List.any_eq_false] at hany ⊢
  intro r hr
  obtain ⟨x, hx, rfl⟩ := List.mem_map.mp hr
  rw [hq x _ ?_ ?_]
  · exact hany x hx
  all_goals
    split <;> rfl

/-- An intent is removed when its file is. -/
theorem respects_removeIntents (pks : List Nat) : Respects p held s (removeIntents pks s) := by
  refine respects_intents (fun q _ hany => ?_) rfl
  rw [List.any_eq_false] at hany ⊢
  exact fun r hr => hany r (List.mem_filter.mp hr).1

/-! ## Files -/

/-- The observations of the storage are free to be made. -/
def FilesShown (Γ : Ctx Store Lock Exn Obs) : Prop :=
  ∀ key now s, Γ.shown (.savingFile key) now s ∧ Γ.shown (.deletingFile key) now s

/-- The storage answers, or fails. -/
theorem look_storageAnswer (hΓ : Lawful Γ) :
    Look Γ storageAnswer w (fun _ _ => True) anyError :=
  Look.bind hΓ Look.fresh fun _ _ _ _ => Look.bind hΓ (look_raiseIf hΓ fun _ => trivial)
    fun _ _ _ _ => Look.ret hΓ trivial

/-- A file is saved, which is no write of the store. -/
theorem look_storageSave (hΓ : Lawful Γ) (hfiles : FilesShown Γ) (name : String) :
    Look Γ (storageSave storage name) w (fun _ _ => True) anyError :=
  Look.bind hΓ (Look.observe fun w1 _ _ => (hfiles name w1.now w1.db).1) fun _ _ _ _ =>
    Look.bind hΓ (look_storageAnswer hΓ) fun _ _ _ _ => Look.ret hΓ trivial

/-- Nor is its deletion. -/
theorem look_storageDelete (hΓ : Lawful Γ) (hfiles : FilesShown Γ) (name : String) :
    Look Γ (storageDelete name) w (fun _ _ => True) anyError :=
  Look.bind hΓ (Look.observe fun w1 _ _ => (hfiles name w1.now w1.db).2) fun _ _ _ _ =>
    Look.bind hΓ (look_storageAnswer hΓ) fun _ _ _ _ => Look.ret hΓ trivial

/-- A checksum is read. -/
theorem look_storageChecksum (hΓ : Lawful Γ) (name : String) :
    Look Γ (storageChecksum storage name) w (fun _ _ => True) anyError :=
  Look.bind hΓ (look_storageAnswer hΓ) fun _ _ _ _ => Look.ret hΓ trivial

/-- Staged files are deleted one by one. -/
theorem look_cleanup (hΓ : Lawful Γ) (hfiles : FilesShown Γ) (files : List String) :
    ∀ {w : World Store Lock Obs}, Look Γ (cleanup files) w (fun _ _ => True) anyError := by
  induction files with
  | nil => exact Look.ret hΓ trivial
  | cons name files ih =>
      intro w
      refine Look.bind (P := fun _ _ => True) hΓ ?_ fun _ _ _ _ =>
        Look.bind hΓ ih fun _ _ _ _ => Look.ret hΓ trivial
      refine Look.tryCatch (G := anyError) hΓ ?_ fun _ _ _ _ => Look.ret hΓ trivial
      exact Look.bind hΓ (look_storageDelete hΓ hfiles name) fun _ _ _ _ => Look.ret hΓ trivial

/-- Staged files go if what follows fails. -/
theorem look_cleaningUp (hΓ : Lawful Γ) (hfiles : FilesShown Γ) (files : List String) {m : M α}
    {P : α → World Store Lock Obs → Prop} (h : Look Γ m w P anyError) :
    Look Γ (cleaningUp files m) w P anyError :=
  Look.tryCatch hΓ h fun _ _ _ _ => Look.bind hΓ (look_cleanup hΓ hfiles files)
    fun _ _ _ _ => Look.raise hΓ trivial

/-- In a transaction, too. -/
theorem body_cleaningUp (hΓ : Lawful Γ) (hfiles : FilesShown Γ) (files : List String) {m : M α}
    {P : α → World Store Lock Obs → Prop} (h : Body Γ m w P anyError) :
    Body Γ (cleaningUp files m) w P anyError :=
  Body.tryCatch hΓ h fun _ _ _ _ => Body.look hΓ (look_cleanup hΓ hfiles files)
    fun _ _ _ _ => Body.raise hΓ trivial

/-! ## Intents -/

/-- Only intents of deletions are added or changed. -/
def IntentsOnly (f g : Store → Store) : Prop :=
  ∀ s, g s = { f s with deletionIntents := (g s).deletionIntents }

/-- Intents are added one after the other. -/
theorem IntentsOnly.trans {f g h : Store → Store} (hfg : IntentsOnly f g)
    (hgh : IntentsOnly g h) : IntentsOnly f h := by
  intro s
  rw [hgh s, hfg s]

/-- An intent is added, unless its key has one. -/
theorem body_createIntent (hA : Abides p Γ) (key : String) :
    Body Γ (createIntent key) w (fun _ w' => IntentsOnly w.sess.pend w'.sess.pend) anyError := by
  have hΓ := hA.lawful
  refine Body.look hΓ (Look.acquire anyError_faults _) fun _ w1 h1 _ => ?_
  refine Body.look hΓ (look_fetch anyError_faults _) fun taken w2 h2 _ => ?_
  have hpend2 : w2.sess.pend = w.sess.pend := h2.pend.trans h1.pend
  split
  · refine Body.ret hΓ fun s => ?_
    rw [hpend2]
  · refine Body.look hΓ Look.fresh fun n w3 h3 _ => ?_
    have hwrite : ∀ held, (∀ i ∈ [Index.pk .deletionIntent n, .deletionIntentKey key],
        .unique i ∈ held) → ∀ s, Γ.leave held s (addIntent { pk := n, storageKey := key } s) :=
      fun held hkeys s => hA.leave _ _ _ (respects_addIntent (hkeys _ List.mem_cons_self)
        (hkeys _ (List.mem_cons_of_mem _ List.mem_cons_self)))
    refine (body_insertRow hΓ anyError_faults trivial fun held _ => hwrite held).mono ?_
    intro _ w4 _ hins s
    rw [hins.pend, h3.pend, hpend2]
    rfl

theorem body_createIntents (hA : Abides p Γ) (keys : List String) :
    ∀ {w : World Store Lock Obs}, Body Γ (createIntents keys) w
      (fun _ w' => IntentsOnly w.sess.pend w'.sess.pend) anyError := by
  induction keys with
  | nil => exact Body.ret hA.lawful fun _ => rfl
  | cons key keys ih =>
      intro w
      refine Body.bind hA.lawful (body_createIntent hA key) fun _ w1 _ h1 => ?_
      exact ih.mono fun _ w2 _ h2 => h1.trans h2

/-! ## Replacement -/

/-- Staging an image saves a file and prepares its row. -/
theorem look_stageImage (hΓ : Lawful Γ) (hfiles : FilesShown Γ) (position : Nat)
    (sanitized : SanitizedProductImage) (staged : StagedImages)
    (h : ∀ row ∈ staged.rows, ∀ k, (row k).pk = k ∧ (row k).product = n) :
    Look Γ (stageImage storage n position sanitized staged) w
      (fun staged' _ => ∀ row ∈ staged'.rows, ∀ k, (row k).pk = k ∧ (row k).product = n)
      anyError := by
  refine Look.bind hΓ Look.fresh fun tempId _ _ _ => Look.bind hΓ Look.fresh fun ownedId _ _ _ => ?_
  refine Look.bind (P := fun _ _ => True) hΓ ?_ fun savedName _ _ _ => ?_
  · exact look_cleaningUp hΓ hfiles _ (Look.bind hΓ (look_raiseIf hΓ fun _ => trivial)
      fun _ _ _ _ => look_storageSave hΓ hfiles _)
  refine Look.bind hΓ (look_cleaningUp hΓ hfiles _ (look_raiseIf hΓ fun _ => trivial))
    fun _ _ _ _ => Look.ret hΓ fun row hrow k => ?_
  rcases List.mem_append.mp hrow with hrow | hrow
  · exact h row hrow k
  · rw [List.mem_singleton.mp hrow]
    exact ⟨rfl, rfl⟩

/-- So it is for each image of a form. -/
theorem look_stageImages (hΓ : Lawful Γ) (hfiles : FilesShown Γ)
    (images : List SanitizedProductImage) :
    ∀ {w : World Store Lock Obs} (position : Nat) (staged : StagedImages),
      (∀ row ∈ staged.rows, ∀ k, (row k).pk = k ∧ (row k).product = n) →
      Look Γ (stageImages storage n position images staged) w
        (fun staged' _ => ∀ row ∈ staged'.rows, ∀ k, (row k).pk = k ∧ (row k).product = n)
        anyError := by
  induction images with
  | nil => exact fun _ _ h => Look.ret hΓ h
  | cons sanitized images ih =>
      intro w position staged h
      exact Look.bind hΓ (look_stageImage hΓ hfiles position sanitized staged h)
        fun staged' _ _ h' => ih _ _ h'

/-- What a replacement is about to commit: the rows found are locked, and the keys of the
    new ones are free, or those of rows that go. -/
structure Replacing (n : Nat) (found : List Nat) (new : List ProductImage) (held : List Lock)
    (s : Store) : Prop where
  locked : ∀ k ∈ found, .row .productImage k ∈ held
  keys : (new.map (·.pk)).Nodup
  product : ∀ r ∈ new, r.product = n
  claimed : ∀ r ∈ new, .unique (.pk .productImage r.pk) ∈ held
  free : ∀ r ∈ new, ∀ x ∈ s.productImages, x.pk = r.pk → x.product = n ∧ x.pk ∈ found

/-- A gallery that is being replaced stays so under the lock of its product. -/
theorem Replacing.near (hG : GalleryAbides p Γ) {found : List Nat} {new : List ProductImage}
    (h : Replacing n found new w.sess.held w.db) (hn : Near Γ w w') :
    Replacing n found new w'.sess.held w'.db := by
  refine ⟨fun k hk => hn.held (h.locked k hk), h.keys, h.product,
    fun r hr => hn.held (h.claimed r hr), fun r hr x hx hpk => ?_⟩
  by_cases hthere : ∃ y ∈ w.db.productImages, y.pk = r.pk
  · -- a row that goes is locked
    obtain ⟨y, hy, hypk⟩ := hthere
    have hfound := (h.free r hr y hy hypk).2
    have hx' : x ∈ w.db.productImages :=
      hG.mem_before hn (h.locked _ hfound) hy hx (hpk.trans hypk.symm)
    exact h.free r hr x hx' hpk
  · -- nobody else may insert the key
    have hnone : (Index.pk .productImage r.pk).present w.db = false := by
      refine List.any_eq_false.mpr fun y hy hpk => hthere ⟨y, hy, beq_iff_eq.mp hpk⟩
    have hstill : w'.db.productImages.any (·.pk == r.pk) = false :=
      hG.abides.same hn (h.claimed r hr) hnone
    exact absurd (beq_iff_eq.mpr hpk) (List.any_eq_false.mp hstill x hx)

/-- The gallery of a product, replaced. -/
def ReplacedBy (n : Nat) (found : List Nat) (new : List ProductImage) (f g : Store → Store) :
    Prop :=
  ∀ s, g s = { f s with
    productImages := (removeImages n found (f s)).productImages ++ new
    deletionIntents := (g s).deletionIntents }

/-- The rows that were staged are inserted. -/
theorem body_insertImages (hG : GalleryAbides p Γ) {found : List Nat} {f : Store → Store}
    (hf : ∀ s, (f s).productImages = s.productImages) (rows : List (Nat → ProductImage)) :
    ∀ {w : World Store Lock Obs} {new : List ProductImage},
      (∀ row ∈ rows, ∀ k, (row k).pk = k ∧ (row k).product = n) →
      Replacing n found new w.sess.held w.db → ReplacedBy n found new f w.sess.pend →
      Body Γ (insertImages rows) w (fun _ w' => ∃ new', Replacing n found new' w'.sess.held w'.db ∧
        ReplacedBy n found new' f w'.sess.pend) anyError := by
  have hΓ := hG.abides.lawful
  induction rows with
  | nil => exact fun {w new} _ h hpend => Body.ret hΓ ⟨new, h, hpend⟩
  | cons row rows ih =>
      intro w new hrows h hpend
      refine Body.look hΓ Look.fresh fun k w1 h1 _ => ?_
      obtain ⟨hpk, hproduct⟩ := hrows row List.mem_cons_self k
      refine Body.bind hΓ (body_insertRow hΓ anyError_faults trivial fun held _ hkeys s =>
        hG.abides.leave _ _ _ (respects_addImage (by rw [hpk]; exact hkeys _ List.mem_cons_self)
          (hkeys _ (List.mem_cons_of_mem _ List.mem_cons_self)))) fun _ w2 h2 hins => ?_
      refine @ih w2 (new ++ [row k]) (fun row' hrow' => hrows row' (List.mem_cons_of_mem _ hrow'))
        ?_ ?_
      · obtain ⟨w3, h3, h32, hheld, hfree⟩ := hins.free
        have hready := h.near hG (h1.trans hΓ h3).toNear
        have hview : w3.view.productImages =
            (removeImages n found w3.db).productImages ++ new := by
          rw [h3.view, h1.pend, hpend]
          show (List.filter _ (f w3.db).productImages) ++ new = _
          rw [hf]
          rfl
        have hnone : ∀ x ∈ (removeImages n found w3.db).productImages ++ new, x.pk ≠ k := by
          intro x hx hxk
          rw [← hview] at hx
          have hany : w3.view.productImages.any (·.pk == k) = false :=
            hfree _ List.mem_cons_self
          exact List.any_eq_false.mp hany x hx (beq_iff_eq.mpr hxk)
        refine Replacing.near hG (w := w3) ⟨hready.locked, ?_, ?_, ?_, ?_⟩ h32.toNear
        · rw [List.map_append, List.nodup_append']
          refine ⟨hready.keys, List.nodup_singleton _, fun m hm hm' => ?_⟩
          obtain ⟨x, hx, rfl⟩ := List.mem_map.mp hm
          refine hnone x (List.mem_append_right _ hx) ?_
          exact (List.mem_singleton.mp hm').trans hpk
        · intro r hr
          rcases List.mem_append.mp hr with hr | hr
          · exact hready.product r hr
          · rw [List.mem_singleton.mp hr]
            exact hproduct
        · intro r hr
          rcases List.mem_append.mp hr with hr | hr
          · exact hready.claimed r hr
          · rw [List.mem_singleton.mp hr, hpk]
            exact hheld _ List.mem_cons_self
        · intro r hr x hx hxr
          rcases List.mem_append.mp hr with hr | hr
          · exact hready.free r hr x hx hxr
          · rw [List.mem_singleton.mp hr, hpk] at hxr
            -- a row under the new key would be seen, unless it is one of those that go
            by_cases hgone : (x.product == n && found.contains x.pk) = true
            · rw [Bool.and_eq_true, beq_iff_eq, List.contains_iff_mem] at hgone
              exact hgone
            · refine absurd hxr (hnone x (List.mem_append_left _ (List.mem_filter.mpr ⟨hx, ?_⟩)))
              rw [Bool.not_eq_true] at hgone
              rw [hgone]
              rfl
      · intro s
        rw [hins.pend, h1.pend]
        show addImage (row k) (w.sess.pend s) = _
        rw [addImage, hpend s, List.append_assoc]
        rfl

/-- **SPECIFICATION** of `replace_product_images`, within the writes `f` of its caller. -/
theorem body_replaceProductImages (hG : GalleryAbides p Γ) (hfiles : FilesShown Γ)
    (images : List SanitizedProductImage)
    (hpend : ∀ s, (w.sess.pend s).productImages = s.productImages) :
    Body Γ (replaceProductImages storage n images) w (fun _ w' => ∃ found new,
      Replacing n found new w'.sess.held w'.db ∧
      ReplacedBy n found new w.sess.pend w'.sess.pend) anyError := by
  have hΓ := hG.abides.lawful
  refine Body.look hΓ (look_raiseIf hΓ fun _ => trivial) fun _ w1 h1 _ => ?_
  refine Body.look hΓ (look_getForUpdate hΓ anyError_faults _ _ _ _ trivial)
    fun locked w2 h2 ⟨_, hpk, _⟩ => ?_
  rw [beq_iff_eq] at hpk
  subst hpk
  refine Body.look hΓ (look_selectForUpdate hΓ anyError_faults _ _ _ _) fun existing w3 h3 _ => ?_
  refine Body.look hΓ (look_stageImages hΓ hfiles images 0 _ fun row hrow => nomatch hrow)
    fun staged w4 h4 hrows => ?_
  have hpend4 : w4.sess.pend = w.sess.pend := by
    rw [h4.pend, h3.pend, h2.pend, h1.pend]
  refine Body.bind hΓ ?_ fun _ w5 _ h5 => Body.ret hΓ h5
  refine body_cleaningUp hΓ hfiles _ ?_
  refine Body.bind hΓ (body_createIntents hG.abides _) fun _ w5 _ h5 => ?_
  refine Body.bind (P := fun _ w' => ∃ found,
    (∀ k ∈ found, .row .productImage k ∈ w'.sess.held) ∧
      w'.sess.pend = fun s => removeImages locked.pk found (w5.sess.pend s)) hΓ ?_
    fun _ w6 _ ⟨found, hlocked, h6⟩ => ?_
  · refine Body.look hΓ (look_fetch anyError_faults _) fun found w6 h6 _ => ?_
    refine Body.look hΓ (Look.acquireAll hΓ anyError_faults _) fun _ w7 h7 hheld => ?_
    refine (Body.write hΓ anyError_faults fun s => hG.abides.leave _ _ _
      (respects_removeImages _ _)).mono fun _ w8 h8 hp8 => ⟨found, fun k hk => ?_, ?_⟩
    · exact h8.held (hheld _ (List.mem_map.mpr ⟨k, hk, rfl⟩))
    · rw [hp8, h7.pend, h6.pend]
  have hreplaced : ReplacedBy locked.pk found [] w.sess.pend w6.sess.pend := by
    intro s
    rw [h6]
    show removeImages locked.pk found (w5.sess.pend s) = _
    rw [h5 s, hpend4, List.append_nil]
    rfl
  have hnone : Replacing locked.pk found [] w6.sess.held w6.db :=
    ⟨hlocked, List.nodup_nil, fun _ hr => (nomatch hr), fun _ hr => (nomatch hr),
      fun _ hr => (nomatch hr)⟩
  exact (body_insertImages hG hpend staged.rows hrows hnone hreplaced).mono
    fun _ w7 _ ⟨new, h, hp⟩ => ⟨found, new, h, hp⟩

/-! ## Promotion and repair -/

/-- What a promotion is about to commit. -/
structure Promoting (r : ProductImage) (held : List Lock) (s : Store) : Prop where
  locked : .row .productImage r.pk ∈ held
  row : r ∈ s.productImages
  pending : r.promotionState = .pending

/-- An image that is being promoted stays so under its lock. -/
theorem Promoting.near (hG : GalleryAbides p Γ) {r : ProductImage}
    (h : Promoting r w.sess.held w.db) (hn : Near Γ w w') : Promoting r w'.sess.held w'.db :=
  ⟨hn.held h.locked, hG.mem_after hn h.locked h.row, h.pending⟩

/-- What the gallery code commits after the commit of an edit. -/
inductive GalleryEnd (held : List Lock) (s : Store) (f : Store → Store) : Prop where
  | intents : IntentsOnly id f → GalleryEnd held s f
  | promoted (r : ProductImage) : Promoting r held s →
      (∀ s, f s = setPromoted r.pk r.ownedKey s) → GalleryEnd held s f

/-- The end of a transaction of galleries stays one. -/
theorem GalleryEnd.near (hG : GalleryAbides p Γ) {f : Store → Store}
    (h : GalleryEnd w.sess.held w.db f) (hn : Near Γ w w') :
    GalleryEnd w'.sess.held w'.db f := by
  cases h with
  | intents h => exact .intents h
  | promoted r hr hf => exact .promoted r (hr.near hG hn) hf

/-- A promoted file is copied, which is no write of the store. -/
theorem look_copyToOwned (hΓ : Lawful Γ) (hfiles : FilesShown Γ) (image : ProductImage) :
    Look Γ (copyToOwned storage image) w (fun _ _ => True) anyError := by
  have hchecked : ∀ {w : World Store Lock Obs} (message : String), Look Γ
      (storageChecksum storage image.ownedKey >>= fun digest =>
        raiseIf (digest != image.sha256) (.runtimeError message)) w (fun _ _ => True) anyError :=
    fun _ => Look.bind hΓ (look_storageChecksum hΓ _) fun _ _ _ _ =>
      (look_raiseIf hΓ fun _ => trivial).mono fun _ _ _ _ => trivial
  have hexists : Look Γ (storageExists image.ownedKey) w (fun _ _ => True) anyError :=
    Look.bind hΓ (look_storageAnswer hΓ) fun _ _ _ _ => Look.ret hΓ trivial
  have hread : ∀ {w : World Store Lock Obs}, Look Γ (storageRead image.image) w (fun _ _ => True)
      anyError := Look.bind hΓ (look_storageAnswer hΓ) fun _ _ _ _ => Look.ret hΓ trivial
  refine Look.bind hΓ hexists fun there w1 _ _ => ?_
  cases there with
  | true => exact hchecked _
  | false =>
      refine Look.bind hΓ hread fun _ w2 _ _ => ?_
      refine Look.bind hΓ (look_storageSave hΓ hfiles _) fun savedName w3 _ _ => ?_
      split
      · exact Look.bind hΓ (look_cleanup hΓ hfiles _) fun _ _ _ _ => Look.raise hΓ trivial
      · exact hchecked _

/-- **SPECIFICATION** of the promotion of one image. -/
theorem body_promoteImage (hG : GalleryAbides p Γ) (hfiles : FilesShown Γ) (imageId : Nat)
    (hpend : w.sess.pend = id) :
    Body Γ (promoteImageBody storage imageId) w
      (fun _ w' => GalleryEnd w'.sess.held w'.db w'.sess.pend) anyError := by
  have hΓ := hG.abides.lawful
  refine Body.look hΓ (look_getForUpdate hΓ anyError_faults _ _ _ _ trivial)
    fun image w1 h1 ⟨hrow, _, hlock⟩ => ?_
  have hpend1 := h1.pend.trans hpend
  rw [view_of_id hpend1] at hrow
  split
  · refine Body.ret hΓ (.intents fun s => ?_)
    rw [hpend1]
  · next hpending =>
      rw [bne_iff_ne, not_not] at hpending
      refine Body.look hΓ (look_copyToOwned hΓ hfiles image) fun _ w2 h2 _ => ?_
      refine Body.look hΓ (look_storageDelete hΓ hfiles _) fun _ w3 h3 _ => ?_
      have h13 : Still Γ w1 w3 := h2.trans hΓ h3
      refine (body_updateRows hΓ anyError_faults fun held _ _ s => hG.abides.leave _ _ _
        (respects_setPromoted _)).mono fun _ w4 h4 ⟨hp4, _⟩ => .promoted image ?_ fun s => ?_
      · exact Promoting.near hG (w := w1) ⟨hlock, hrow, hpending⟩
          (h13.toNear.trans hΓ h4.toNear)
      · rw [hp4, h13.pend, hpend1]
        rfl

section Top

variable (hG : GalleryAbides p Γ) (hfiles : FilesShown Γ)
  (hguar : ∀ held s f, Γ.leave held s (f s) → GalleryEnd held s f → Γ.guar held s (f s))

include hG

omit hG in
theorem top_storageAnswer : Top Γ storageAnswer :=
  Top.bind Top.fresh fun _ => Top.bind (Top.raiseIf _ _) fun _ => Top.ret _

include hfiles in
omit hG in
/-- The cleanup runs outside of transactions. -/
theorem top_cleanup (files : List String) : Top Γ (cleanup files) := by
  induction files with
  | nil => exact Top.ret _
  | cons name files ih =>
      have hdelete : Top Γ (storageDelete name) :=
        Top.bind (Top.observe fun now s _ => (hfiles name now s).2) fun _ =>
          Top.bind top_storageAnswer fun _ => Top.ret _
      refine Top.bind (Top.tryCatch (Top.bind hdelete fun _ => Top.ret _) fun _ => Top.ret _)
        fun _ => Top.bind ih fun _ => Top.ret _

include hguar

/-- A transaction that only adds or changes intents. -/
theorem top_intents {m : M α} (h : ∀ w : World Store Lock Obs, w.sess.pend = id →
    Body Γ m w (fun _ w' => IntentsOnly id w'.sess.pend) anyError) : Top Γ (atomic m) :=
  Top.atomicEnds (P := fun _ held s f => GalleryEnd held s f) hG.abides.lawful
    (fun w hpend _ => (h w hpend).mono fun _ _ _ hp => .intents hp)
    (fun _ _ _ _ hend hn => hend.near hG hn)
    fun _ held s f hleave hend => hguar held s f hleave hend

theorem top_persistExceptionCleanupFailures (exc : Exn) :
    Top Γ (persistExceptionCleanupFailures exc) := by
  cases exc with
  | cleanupFailed keys cause =>
      refine Top.tryCatch (top_intents hG hguar fun w hpend => ?_) fun _ => Top.ret _
      refine (body_createIntents hG.abides _).mono fun _ w' _ h => ?_
      rw [hpend] at h
      exact h
  | _ => exact Top.ret _

omit hG hguar in
/-- What each turn fails with is collected. -/
theorem top_failuresOf {turn : Nat → M Unit} {failed : Exn → M Unit} (hturn : ∀ n, Top Γ (turn n))
    (hfailed : ∀ exc, Top Γ (failed exc)) (ids : List Nat) :
    Top Γ (failuresOf turn failed ids) := by
  induction ids with
  | nil => exact Top.ret _
  | cons n ids ih =>
      refine Top.bind (Top.tryCatch (Top.bind (hturn n) fun _ => Top.ret _) fun exc =>
        Top.bind (hfailed exc) fun _ => Top.ret _) fun _ => Top.bind ih fun _ => Top.ret _

omit hG hguar in
theorem top_raiseFirst (failures : List Exn) : Top Γ (raiseFirst failures) := by
  cases failures with
  | nil => exact Top.ret _
  | cons exc _ => exact Top.raise _

include hfiles in
/-- **PROMOTION**, image by image, each in its own transaction. -/
theorem top_promoteProductImages (imageIds : Option (List Nat)) (product : Option Nat) :
    Top Γ (promoteProductImages storage imageIds product) := by
  refine Top.bind (Top.select _) fun ids => Top.bind (top_failuresOf (fun imageId => ?_)
    (top_persistExceptionCleanupFailures hG hguar) ids) top_raiseFirst
  exact Top.atomicEnds (P := fun _ held s f => GalleryEnd held s f) hG.abides.lawful
    (fun w hpend _ => body_promoteImage hG hfiles imageId hpend)
    (fun _ _ _ _ hend hn => hend.near hG hn)
    fun _ held s f hleave hend => hguar held s f hleave hend

include hfiles in
/-- A deletion is repaired in its own transaction. -/
theorem top_repairDeletion (intentId : Nat) : Top Γ (repairDeletion intentId) := by
  have hΓ := hG.abides.lawful
  refine Top.bind (top_intents hG hguar fun w hpend => ?_) fun intent => ?_
  · refine Body.look hΓ (look_getForUpdate hΓ anyError_faults _ _ _ _ trivial)
      fun row w1 h1 _ => ?_
    refine Body.bind hΓ (body_updateRows hΓ anyError_faults fun held _ _ s =>
      hG.abides.leave _ _ _ (respects_setAttempts _)) fun _ w2 _ ⟨hp2, _⟩ => Body.ret hΓ fun s => ?_
    rw [hp2, h1.pend, hpend]
    rfl
  · have hdelete : Top Γ (storageDelete intent.storageKey) :=
      Top.bind (Top.observe fun now s _ => (hfiles _ now s).2) fun _ =>
        Top.bind top_storageAnswer fun _ => Top.ret _
    refine Top.bind hdelete fun _ => top_intents hG hguar fun w hpend => ?_
    refine Body.look hΓ (look_fetch anyError_faults _) fun found w1 h1 _ => ?_
    refine Body.look hΓ (Look.acquireAll hΓ anyError_faults _) fun _ w2 h2 _ => ?_
    refine (Body.write hΓ anyError_faults fun s => hG.abides.leave _ _ _
      (respects_removeIntents _)).mono fun _ w3 _ hp3 s => ?_
    rw [hp3, h2.pend, h1.pend, hpend]
    rfl

include hfiles in
/-- **SPECIFICATION** of `_repair_after_commit`. -/
theorem top_repairAfterCommit (n : Nat) : Top Γ (repairAfterCommit storage n) :=
  Top.bind (Top.tryCatch (top_promoteProductImages hG hfiles hguar _ _) fun _ => Top.ret _)
    fun _ => Top.tryCatch (Top.bind (Top.select _) fun ids => Top.bind (top_failuresOf
      (top_repairDeletion hG hfiles hguar) (fun _ => Top.ret _) ids) top_raiseFirst)
      fun _ => Top.ret _

include hfiles in
/-- **SPECIFICATION** of the handler of the views: it raises. -/
theorem wp_abandonEdit (exc : Exn) (staging : Option (List String)) (hi : Idle w) :
    wp Γ (abandonEdit exc staging : M α) (fun r _ => ∃ e, r = .error e) w := by
  refine wp_bind (wp_mono ?_ (top_cleanup hfiles _ w hi))
  rintro (e | failedKeys) w1 hi1
  · exact ⟨e, rfl⟩
  refine wp_bind (wp_mono ?_ (top_persistExceptionCleanupFailures hG hguar
    (recordCleanupFailures exc failedKeys) w1 hi1))
  rintro (e | _) w2 -
  · exact ⟨e, rfl⟩
  · exact ⟨_, rfl⟩

end Top

end Market
