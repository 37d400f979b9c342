import Marketplace.Trades
import Marketplace.Transfers

/-! # The gallery of a product

    `replace_product_images`, `promote_product_images` and the repair of deletions of
    `catalog/services.py`.  The rows of a gallery are in the database and its bytes in a
    file storage, which no transaction undoes: what the storage does is only observed,
    and any of its operations may raise. -/

namespace Market

open TxnProgram

/-! ## The file storage -/

/-- What a storage answers, by a number that stands for what happened to it: the key that
    it saved a file under, and the digest of the bytes that it read. -/
structure FileStorage where
  savedName : String → Nat → String
  checksum : String → Nat → String

/-- A storage to run examples on: it saves under the key it is given, and reads nothing. -/
def plainStorage : FileStorage := ⟨fun name _ => name, fun _ _ => ""⟩

/-- An operation of the storage raises, or has an answer. -/
def storageAnswer : M Nat := do
  let answer ← Prog.fresh
  raiseIf (answer == 0) (.outside "OSError")
  return answer

def storageSave (storage : FileStorage) (name : String) : M String := do
  Prog.observe (.savingFile name)
  let answer ← storageAnswer
  return storage.savedName name answer

def storageDelete (name : String) : M Unit := do
  Prog.observe (.deletingFile name)
  let _ ← storageAnswer
  return ()

def storageExists (_name : String) : M Bool := do
  let answer ← storageAnswer
  return answer == 1

/-- `with storage.open(name, "rb") as ...: ....read()`. -/
def storageRead (_name : String) : M Unit := do
  let _ ← storageAnswer
  return ()

/-- `_storage_checksum`. -/
def storageChecksum (storage : FileStorage) (name : String) : M String := do
  let answer ← storageAnswer
  return storage.checksum name answer

/-! ## Rows -/

def MAX_IMAGE_BYTES : Nat := 5 * 1024 * 1024
def MAX_IMAGE_DIMENSION : Nat := 4096

/-- `SanitizedProductImage`, within the limits that the pipeline checked: the suffix of
    its storage name, and the digest of its content. -/
structure SanitizedProductImage where
  suffix : String
  sha256 : String
  byteSize : Nat
  width : Nat
  height : Nat
  bytesBounded : 0 < byteSize ∧ byteSize ≤ MAX_IMAGE_BYTES := by decide
  widthBounded : 0 < width ∧ width ≤ MAX_IMAGE_DIMENSION := by decide
  heightBounded : 0 < height ∧ height ≤ MAX_IMAGE_DIMENSION := by decide

def addImage (r : ProductImage) (s : Store) : Store :=
  { s with productImages := s.productImages ++ [r] }

/-- `DELETE ... WHERE product_id = ...`, of the rows that its snapshot found. -/
def removeImages (product : Nat) (pks : List Nat) (s : Store) : Store :=
  { s with productImages := s.productImages.filter fun r =>
      !(r.product == product && pks.contains r.pk) }

/-- The row with the primary key is at its own key. -/
def promoteRow (n : Nat) (image : String) (r : ProductImage) : ProductImage :=
  if r.pk = n then { r with image := image, promotionState := .promoted } else r

@[simp] theorem promoteRow_pk (n : Nat) (image : String) (r : ProductImage) :
    (promoteRow n image r).pk = r.pk := by
  rw [promoteRow]
  split <;> rfl

@[simp] theorem promoteRow_product (n : Nat) (image : String) (r : ProductImage) :
    (promoteRow n image r).product = r.product := by
  rw [promoteRow]
  split <;> rfl

@[simp] theorem promoteRow_position (n : Nat) (image : String) (r : ProductImage) :
    (promoteRow n image r).position = r.position := by
  rw [promoteRow]
  split <;> rfl

/-- `image.save(update_fields=("image", "promotion_state"))`. -/
def setPromoted (n : Nat) (image : String) (s : Store) : Store :=
  { s with productImages := s.productImages.map (promoteRow n image) }

def addIntent (r : ProductImageDeletionIntent) (s : Store) : Store :=
  { s with deletionIntents := s.deletionIntents ++ [r] }

/-- `record_attempt`. -/
def setAttempts (n attempts : Nat) (s : Store) : Store :=
  { s with deletionIntents := s.deletionIntents.map fun r =>
      if r.pk = n then { r with attempts := attempts } else r }

def removeIntents (pks : List Nat) (s : Store) : Store :=
  { s with deletionIntents := s.deletionIntents.filter fun r => !pks.contains r.pk }

/-! ## Cleaning up -/

/-- `GalleryStaging.cleanup`: the keys that could not be deleted. -/
def cleanup : List String → M (List String)
  | [] => return []
  | name :: files => do
      let failed ← Prog.tryCatch (do storageDelete name; return []) fun _ => return [name]
      let failedKeys ← cleanup files
      return failed ++ failedKeys

/-- `_record_cleanup_failures`. -/
def recordCleanupFailures (exc : Exn) (keys : List String) : Exn :=
  match exc with
  | .cleanupFailed failed cause => .cleanupFailed (failed ++ keys).eraseDups cause
  | _ => if keys.isEmpty then exc else .cleanupFailed keys.eraseDups exc

/-- One row of a `bulk_create(..., ignore_conflicts=True)` of intents: nothing is inserted
    when the key is there, once who may be inserting it is done. -/
def createIntent (key : String) : M Unit := do
  Prog.acquire (.unique (.deletionIntentKey key))
  let taken ← fetch fun s => (Index.deletionIntentKey key).present s
  if taken then return ()
  else do
    let n ← Prog.fresh
    insertRow [.pk .deletionIntent n, .deletionIntentKey key]
      (addIntent { pk := n, storageKey := key })

def createIntents : List String → M Unit
  | [] => return ()
  | key :: keys => do
      createIntent key
      createIntents keys

/-- `_persist_deletion_intents`, in a transaction. -/
def persistDeletionIntents (keys : List String) : M Unit :=
  createIntents (keys.filter (· != "")).eraseDups

/-- `_persist_exception_cleanup_failures`: `bulk_create` opens a transaction, and what it
    raises is logged. -/
def persistExceptionCleanupFailures (exc : Exn) : M Unit :=
  match exc with
  | .cleanupFailed keys _ =>
      Prog.tryCatch (atomic (persistDeletionIntents keys)) fun _ => return ()
  | _ => return ()

/-- The handler of `replace_product_images`. -/
def cleaningUp {α : Type} (files : List String) (m : M α) : M α :=
  Prog.tryCatch m fun exc => do
    let failedKeys ← cleanup files
    raise (recordCleanupFailures exc failedKeys)

/-! ## Replacement -/

/-- What the loop over the images has staged: the files saved, the rows to insert without
    their primary keys, and the names that are taken. -/
structure StagedImages where
  files : List String := []
  rows : List (Nat → ProductImage) := []
  protectedNames : List String

/-- One turn of the loop: `staged.files` are removed again when it raises. -/
def stageImage (storage : FileStorage) (product position : Nat) (sanitized : SanitizedProductImage)
    (staged : StagedImages) : M StagedImages := do
  let tempId ← Prog.fresh
  let tempName := "product-images/tmp/" ++ uuidStr tempId ++ sanitized.suffix
  let ownedId ← Prog.fresh
  let ownedName := "product-images/owned/" ++ toString product ++ "/" ++ uuidStr ownedId ++
    sanitized.suffix
  let savedName ← cleaningUp staged.files do
    raiseIf (staged.protectedNames.contains tempName || staged.protectedNames.contains ownedName)
      (.runtimeError "gallery image destination aliases an existing image key")
    storageSave storage tempName
  let files := staged.files ++ [savedName]
  cleaningUp files (raiseIf (savedName != tempName)
    (.runtimeError "gallery image storage changed the temporary key"))
  return { files := files
           rows := staged.rows ++ [fun n =>
             { pk := n, product := product, image := savedName, position := position,
               sha256 := sanitized.sha256, byteSize := sanitized.byteSize,
               width := sanitized.width, height := sanitized.height, ownedKey := ownedName,
               promotionState := .pending }]
           protectedNames := staged.protectedNames ++ [savedName, ownedName] }

/-- The loop, from a position on. -/
def stageImages (storage : FileStorage) (product : Nat) :
    Nat → List SanitizedProductImage → StagedImages → M StagedImages
  | _, [], staged => return staged
  | position, sanitized :: images, staged => do
      let staged ← stageImage storage product position sanitized staged
      stageImages storage product (position + 1) images staged

/-- `superseded_keys`: the files of the rows to be deleted, but not the legacy image. -/
def supersededKeys (product : Product) (existing : List ProductImage) : List String :=
  ((existing.filter (·.promotionState == .promoted)).map (·.image) ++
    (existing.filter (·.promotionState == .pending)).flatMap fun r => [r.image, r.ownedKey]).filter
      (· != product.image)

/-- `bulk_create(new_images)`. -/
def insertImages : List (Nat → ProductImage) → M Unit
  | [] => return ()
  | row :: rows => do
      let n ← Prog.fresh
      insertRow [.pk .productImage n, .productImagePosition (row n).product (row n).position]
        (addImage (row n))
      insertImages rows

/-- `replace_product_images`, in the transaction of its caller: the files staged. -/
def replaceProductImages (storage : FileStorage) (product : Nat)
    (images : List SanitizedProductImage) : M (List String) := do
  raiseIf (decide (4 < images.length))
    (.validationError "상품 이미지는 최대 4장까지 등록할 수 있습니다.")
  let locked ← getForUpdate .product (·.products) (·.pk) (·.pk == product)
  let existing ← selectForUpdate .productImage (·.productImages) (·.pk) (·.product == locked.pk)
  let protectedNames := (locked.image :: existing.map (·.image) ++ existing.map (·.ownedKey)).filter
    (· != "")
  let staged ← stageImages storage locked.pk 0 images { protectedNames := protectedNames }
  cleaningUp staged.files do
    persistDeletionIntents (supersededKeys locked existing)
    deleteRows .productImage (·.productImages) (·.pk) (·.product == locked.pk)
      (removeImages locked.pk)
    insertImages staged.rows
  return staged.files

/-! ## Promotion and repair -/

/-- The bytes of a pending image under its owned key, where they may be already. -/
def copyToOwned (storage : FileStorage) (image : ProductImage) : M Unit := do
  let finalName := image.ownedKey
  if ← storageExists finalName then do
    let digest ← storageChecksum storage finalName
    raiseIf (digest != image.sha256)
      (.runtimeError "gallery image owned key has mismatched bytes")
  else do
    storageRead image.image
    let savedName ← storageSave storage finalName
    if savedName != finalName then do
      let failedKeys ← cleanup [savedName]
      raise (recordCleanupFailures
        (.runtimeError "gallery image storage changed the owned key") failedKeys)
    else do
      let digest ← storageChecksum storage finalName
      raiseIf (digest != image.sha256) (.runtimeError "gallery image owned key checksum mismatch")

/-- The `with` block of `promote_product_images`, for one image. -/
def promoteImageBody (storage : FileStorage) (imageId : Nat) : M Unit := do
  let image ← getForUpdate .productImage (·.productImages) (·.pk) (·.pk == imageId)
  if image.promotionState != .pending then return ()
  else do
    copyToOwned storage image
    storageDelete image.image
    updateRows .productImage [image.pk] (setPromoted image.pk image.ownedKey)

/-- A loop whose turns may raise: the failures, in order. -/
def failuresOf (turn : Nat → M Unit) (failed : Exn → M Unit) : List Nat → M (List Exn)
  | [] => return []
  | n :: rest => do
      let failure ← Prog.tryCatch (do turn n; return []) fun exc => do
        failed exc
        return [exc]
      let failures ← failuresOf turn failed rest
      return failure ++ failures

/-- `if failures: raise failures[0]`. -/
def raiseFirst : List Exn → M Unit
  | [] => return ()
  | exc :: _ => raise exc

/-- `promote_product_images`, of the images with these ids or of this product, where given. -/
def promoteProductImages (storage : FileStorage) (imageIds : Option (List Nat))
    (product : Option Nat) : M Unit := do
  let ids ← fetch fun s => ((s.productImages.filter fun r => r.promotionState == .pending
    && imageIds.all (·.contains r.pk) && product.all (· == r.product)).insertionSort
      fun a b => a.position < b.position ∨ (a.position = b.position ∧ a.pk ≤ b.pk)).map (·.pk)
  let failures ← failuresOf (fun n => atomic (promoteImageBody storage n))
    persistExceptionCleanupFailures ids
  raiseFirst failures

/-- The body of the loop of `repair_product_image_deletions`. -/
def repairDeletion (intentId : Nat) : M Unit := do
  let intent ← atomic do
    let intent ← getForUpdate .deletionIntent (·.deletionIntents) (·.pk) (·.pk == intentId)
    updateRows .deletionIntent [intent.pk] (setAttempts intent.pk (intent.attempts + 1))
    return intent
  storageDelete intent.storageKey
  atomic (deleteRows .deletionIntent (·.deletionIntents) (·.pk) (·.pk == intentId) removeIntents)

/-- `repair_product_image_deletions`. -/
def repairProductImageDeletions : M Unit := do
  let ids ← fetch fun s => (s.deletionIntents.map (·.pk)).insertionSort (· ≤ ·)
  let failures ← failuresOf repairDeletion (fun _ => return ()) ids
  raiseFirst failures

/-- `_repair_after_commit`. -/
def repairAfterCommit (storage : FileStorage) (product : Nat) : M Unit := do
  Prog.tryCatch (promoteProductImages storage none (some product)) fun _ => return ()
  Prog.tryCatch repairProductImageDeletions fun _ => return ()

end Market
