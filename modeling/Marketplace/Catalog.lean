import Marketplace.Accounts
import Marketplace.Gallery

/-! # Products and favorites of a logged-in user

    `product_create`, `product_update` and `product_favorite` of `catalog/views.py`,
    and `set_favorite` of `catalog/engagement.py`.  Whether a form is valid, and the
    values and images it was cleaned to, are a parameter. -/

namespace Market

open TxnProgram

def addProduct (r : Product) (s : Store) : Store :=
  { s with products := s.products ++ [r] }
def addFavorite (r : Favorite) (s : Store) : Store :=
  { s with favorites := s.favorites ++ [r] }

/-! ## Products -/

/-- The cleaned data of a `ProductFieldsForm`. -/
structure ProductFields where
  title : String
  description : String
  price : Nat
  category : String
  region : Option String := none
  images : List SanitizedProductImage := []

/-- The cleaned data of a `ProductUpdateForm`. -/
structure ProductUpdateFields extends ProductFields where
  version : Int
  clearImages : Bool := false

/-- The values of the form in a row, as `Product.save` normalises them. -/
def ProductFields.fill (p : Platform) (form : ProductFields) (r : Product) : Product :=
  { r with
    title := p.normalizeNfc form.title, description := p.normalizeNfc form.description,
    price := form.price, category := form.category, region := form.region,
    regionSource := if form.region.isSome then .selected else .legacyUnset }

/-- The handler of the views that edit a product: what was staged is removed, and what
    could not be is written down. -/
def abandonEdit {α : Type} (exc : Exn) (staging : Option (List String)) : M α := do
  let failedKeys ← cleanup (staging.getD [])
  let exc := recordCleanupFailures exc failedKeys
  persistExceptionCleanupFailures exc
  raise exc

/-- The `with` block of `product_create`: the new primary key, and the files staged. -/
def productCreateBody (p : Platform) (storage : FileStorage) (user : User)
    (form : ProductFields) : M (Nat × List String) := do
  let n ← Prog.fresh
  let createdAt ← timezoneNow
  let updatedAt ← timezoneNow
  insertRow [.pk .product n] (addProduct (form.fill p
    { pk := n, owner := user.pk, createdAt := createdAt, updatedAt := updatedAt }))
  let files ← replaceProductImages storage n form.images
  -- `COMMIT` checks the deferred foreign key, and waits for the row of the owner
  Prog.acquire (.row .user user.pk)
  Prog.observe (.listing user.pk)
  return (n, files)

/-- A `POST` to `product_create`, with the form if it is valid. -/
def productCreate (p : Platform) (storage : FileStorage) (r : Request)
    (form : Option ProductFields) : M (Option Nat) := do
  let user ← requestUser r
  match form with
  | none => return none
  | some form =>
      match ← Prog.attempt (productCreateBody p storage user form) with
      | .undone exc answer => abandonEdit exc (answer.map (·.2))
      | .kept (n, _) => do
          repairAfterCommit storage n
          return some n

/-- The `with` block of `product_update`: the HTTP status, and the files staged when the
    gallery was replaced. -/
def productUpdateBody (p : Platform) (storage : FileStorage) (user product : Nat)
    (form : ProductUpdateFields) : M (Nat × Option (List String)) := do
  let locked ← Prog.tryCatch
    (getForUpdate .product (·.products) (·.pk) fun r =>
      r.pk == product && r.owner == user && r.archivedAt.isNone) fun
    | .doesNotExist _ => raise .http404
    | e => raise e
  if form.version != locked.version then return (409, none)
  else do
    Prog.observe (.editing locked.pk)
    let updatedAt ← timezoneNow
    updateRows .product [locked.pk] (updateProducts [locked.pk] fun r =>
      { form.fill p r with version := locked.version + 1, updatedAt := updatedAt })
    if !form.images.isEmpty || form.clearImages then do
      let files ← replaceProductImages storage locked.pk form.images
      return (302, some files)
    else return (302, none)

/-- A `POST` to `product_update`, with the form if it is valid: the HTTP status. -/
def productUpdate (p : Platform) (storage : FileStorage) (r : Request) (product : Nat)
    (form : Option ProductUpdateFields) : M Nat := do
  let user ← requestUser r
  let shown ← fetch fun s => s.products.find? fun x =>
    x.pk == product && x.owner == user.pk && x.archivedAt.isNone
  match shown, form with
  | none, _ => raise .http404
  | some _, none => return 200
  | some _, some form =>
      match ← Prog.attempt (productUpdateBody p storage user.pk product form) with
      | .undone exc answer => abandonEdit exc (answer.bind (·.2))
      | .kept (status, some _) => do
          repairAfterCommit storage product
          return status
      | .kept (status, none) => return status

/-- A `POST` to `product_delete`, by the user of its request. -/
def productDeleteRequest (r : Request) (product : Nat) (submittedVersion : Int) : M Nat := do
  let user ← requestUser r
  productDelete user.pk product submittedVersion

/-! ## Favorites -/

/-- `Favorite.objects.get_or_create(...)`. -/
def addFavoriteOnce (user product : Nat) : M Unit := do
  let _ ← getOrCreate
    (fetch fun s => s.favorites.find? fun f => f.user == user && f.product == product) do
      let n ← Prog.fresh
      let row : Favorite := { pk := n, user := user, product := product }
      insertRow [.pk .favorite n, .favorite user product] (addFavorite row)
      return row
  return ()

/-- The `with` block of `set_favorite`. -/
def setFavoriteBody (user product : Nat) (active : Bool) : M ProductMetric := do
  let row ← Prog.tryCatch
    (getForUpdate .user (·.users) (·.pk) fun u =>
      u.pk == user && u.isActive && u.withdrawnAt.isNone) fun
    | .doesNotExist .user => raise (.permissionDenied "관심 상품을 변경할 수 없습니다.")
    | e => raise e
  let _ ← getForUpdate .product (·.products) (·.pk) (·.pk == product)
  if active then do
    addFavoriteOnce row.pk product
    recomputeProductMetric product
  else do
    deleteRows .favorite (·.favorites) (·.pk)
      (fun f => f.user == row.pk && f.product == product) removeFavorites
    recomputeProductMetric product

def setFavorite (user product : Nat) (active : Bool) : M ProductMetric :=
  atomic (setFavoriteBody user product active)

/-- A `POST` to `product_favorite`; `action` is the command of the form, if it is one. -/
def productFavorite (r : Request) (product : Nat) (action : Option Bool) : M Nat := do
  let user ← requestUser r
  let shown ← fetch fun s => s.products.find? fun x =>
    x.pk == product && x.archivedAt.isNone
  match shown with
  | none => raise .http404
  | some _ => do
      let visibility ← effectiveProductVisibility product
      if visibility != .visible then raise .http404
      else match action with
        | none => return 400
        | some active => do
            let _ ← setFavorite user.pk product active
            return 302

end Market
