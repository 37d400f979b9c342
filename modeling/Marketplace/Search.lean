import Marketplace.Trades

/-! # The product search

    `catalog/search.py`, `product_list` of `catalog/views.py` with the pagination forms of
    its template, the lifecycle projections of `catalog/projectors.py` and
    `catalog/views.py`, and the product filter of `accounts/views.py`.  The columns that
    the templates only print are left out. -/

namespace Market

/-! ## Lifecycle projections -/

/-- The order in which the database gives the rows of a query. -/
structure RowOrder where
  arrange : List Trade → List Trade
  perm : ∀ rows, (arrange rows).Perm rows

/-- `.first()`, or the row of a subquery that is cut to one. -/
def RowOrder.first (o : RowOrder) (rows : List Trade) : Option Trade := (o.arrange rows).head?

/-- The trades of a product that are reserved or completed. -/
def lifecycleTrades (s : Store) (product : Nat) : List Trade :=
  s.trades.filter fun r =>
    r.product == product && [TradeStatus.reserved, TradeStatus.completed].contains r.status

inductive ProductState where
  | available | reserved | sold
  deriving DecidableEq

/-- `effective_product_state`, given the order of the query. -/
def effectiveProductState (o : RowOrder) (s : Store) (product : Nat) : ProductState :=
  let status := (o.first (lifecycleTrades s product)).map (·.status)
  if status == some .completed then .sold
  else if status == some .reserved then .reserved
  else .available

/-- The annotation `has_completed_trade`. -/
def hasCompletedTrade (s : Store) (product : Nat) : Bool :=
  s.trades.any fun r => r.product == product && r.status == .completed

/-- The annotation `lifecycle_status`. -/
def lifecycleStatus (o : RowOrder) (s : Store) (product : Nat) : Option TradeStatus :=
  (o.first (lifecycleTrades s product)).map (·.status)

/-- `_attach_effective_state`; `lifecycleStatus` is the attribute of the product, when the
    query set it. -/
def attachEffectiveState (o : RowOrder) (s : Store) (product : Nat)
    (lifecycleStatus : Option (Option TradeStatus)) : ProductState :=
  match lifecycleStatus with
  | some (some .reserved) => .reserved
  | some (some .completed) => .sold
  | some _ => .available
  | none => effectiveProductState o s product

def PRODUCT_STATE_LABELS : ProductState → String
  | .available => "판매 중"
  | .reserved => "예약 중"
  | .sold => "판매 완료"

/-! ## Queries -/

/-- What the search asks the Unicode database, the database for `icontains`, and the
    tables of categories and regions. -/
structure SearchContext where
  normalizeNfc : String → String
  category : Char → String
  icontains : String → String → Bool
  categories : List String
  regions : List String

/-- The decoded parameters of a query string, in its order. -/
abbrev QueryDict := List (String × String)

def QueryDict.getlist (params : QueryDict) (key : String) : List String :=
  (params.filter (·.1 == key)).map (·.2)

def QueryDict.get (params : QueryDict) (key default : String) : String :=
  (params.getlist key).getLast?.getD default

def ALLOWED_KEYS : List String :=
  ["q", "status", "min_price", "max_price", "sort", "page", "category", "region"]

inductive SearchStatus where
  | all | available | sold
  deriving DecidableEq

def SearchStatus.text : SearchStatus → String
  | .all => ""
  | .available => "available"
  | .sold => "sold"

inductive SearchSort where
  | newest | priceAsc | priceDesc
  deriving DecidableEq

def SearchSort.text : SearchSort → String
  | .newest => "newest"
  | .priceAsc => "price_asc"
  | .priceDesc => "price_desc"

structure ProductSearch where
  q : String
  status : SearchStatus
  minPrice : Option Nat
  maxPrice : Option Nat
  sort : SearchSort
  page : Nat
  category : String
  region : String
  deriving DecidableEq

/-- The message of an `InvalidProductSearch`, or a value. -/
abbrev Parsed (α : Type) := Except String α

/-- `_bounded_integer`: `isascii` and `isdecimal` leave the digits, and `Decimal` reads
    any number of them. -/
def boundedInteger (raw : String) (minimum maximum : Nat) : Parsed Nat :=
  if raw.isEmpty || !raw.toList.all Char.isDigit then
    .error "숫자 검색 조건이 올바르지 않습니다."
  else
    let value := Nat.ofDigitChars 10 raw.toList 0
    if minimum ≤ value ∧ value ≤ maximum then .ok value
    else .error "숫자 검색 조건이 허용 범위를 벗어났습니다."

/-- `_optional_price`. -/
def optionalPrice (raw : String) : Parsed (Option Nat) :=
  if raw.isEmpty then .ok none
  else do
    let value ← boundedInteger raw 1 999999999999
    return some value

/-- The first check of `parse_product_search`. -/
def checkKeys (params : QueryDict) : Parsed Unit :=
  if params.any (fun x => !ALLOWED_KEYS.contains x.1)
      || params.any (fun x => (params.getlist x.1).length != 1) then
    .error "허용되지 않거나 중복된 검색 조건입니다."
  else .ok ()

def parseQ (x : SearchContext) (raw : String) : Parsed String :=
  let q := x.normalizeNfc (strip raw)
  if decide (100 < q.length) || q.toList.any (fun c => ["Cc", "Cf"].contains (x.category c)) then
    .error "검색어는 제어문자 없이 100자 이하여야 합니다."
  else .ok q

def parseStatus (raw : String) : Parsed SearchStatus :=
  match [SearchStatus.all, .available, .sold].find? (·.text == raw) with
  | some status => .ok status
  | none => .error "판매 상태가 올바르지 않습니다."

/-- `value or default`. -/
def orElse (value default : String) : String := if value.isEmpty then default else value

def parseSort (raw : String) : Parsed SearchSort :=
  match [SearchSort.newest, .priceAsc, .priceDesc].find? (·.text == orElse raw "newest") with
  | some sort => .ok sort
  | none => .error "정렬 조건이 올바르지 않습니다."

def parsePage (raw : String) : Parsed Nat := boundedInteger (orElse raw "1") 1 500

def checkPrices (minimum maximum : Option Nat) : Parsed Unit :=
  match minimum, maximum with
  | some low, some high =>
      if high < low then .error "최소 가격은 최대 가격보다 클 수 없습니다." else .ok ()
  | _, _ => .ok ()

/-- A code is empty or one of the table. -/
def checkCode (codes : List String) (code message : String) : Parsed Unit :=
  if !code.isEmpty && !codes.contains code then .error message else .ok ()

/-- `parse_product_search`. -/
def parseProductSearch (x : SearchContext) (params : QueryDict) : Parsed ProductSearch := do
  checkKeys params
  let q ← parseQ x (params.get "q" "")
  let status ← parseStatus (params.get "status" "")
  let sort ← parseSort (params.get "sort" "newest")
  let page ← parsePage (params.get "page" "1")
  let minimum ← optionalPrice (params.get "min_price" "")
  let maximum ← optionalPrice (params.get "max_price" "")
  checkPrices minimum maximum
  let category := params.get "category" ""
  let region := params.get "region" ""
  checkCode x.categories category "카테고리가 올바르지 않습니다."
  checkCode x.regions region "지역이 올바르지 않습니다."
  return { q, status, minPrice := minimum, maxPrice := maximum, sort, page, category, region }

/-! ## Results -/

/-- The filters of `search_products`, but the one of the status. -/
def ProductSearch.admits (x : SearchContext) (search : ProductSearch) (r : Product) : Bool :=
  (search.q.isEmpty || x.icontains r.title search.q || x.icontains r.description search.q)
    && search.minPrice.all (· ≤ r.price) && search.maxPrice.all (r.price ≤ ·)
    && (search.category.isEmpty || r.category == search.category)
    && (search.region.isEmpty || sqlHolds (sqlEq r.region search.region))

/-- The filter of the status, on the annotation `has_completed_trade`. -/
def SearchStatus.admits (status : SearchStatus) (hasCompletedTrade : Bool) : Bool :=
  match status with
  | .all => true
  | .available => hasCompletedTrade == false
  | .sold => hasCompletedTrade == true

/-- The rows of the query of `search_products` at database time `t`. -/
def searchQueryset (x : SearchContext) (t : Time) (s : Store) (search : ProductSearch) :
    List Product :=
  (visibleProducts t s (s.products.filter (·.archivedAt.isNone))).filter fun r =>
    search.admits x r && search.status.admits (hasCompletedTrade s r.pk)

/-- `_SORTS`: the first of the two products comes first. -/
def SearchSort.before (sort : SearchSort) (a b : Product) : Prop :=
  match sort with
  | .newest => descBy Product.createdAt Product.pk a b
  | .priceAsc => a.price < b.price ∨ (a.price = b.price ∧ b.pk ≤ a.pk)
  | .priceDesc => descBy Product.price Product.pk a b

instance (sort : SearchSort) (a b : Product) : Decidable (sort.before a b) := by
  cases sort <;> exact inferInstanceAs (Decidable (_ ∨ _))

/-- `search_products`: the products of one page, with their `lifecycle_status`, and the
    number of all of them. -/
def searchProducts (x : SearchContext) (o : RowOrder) (t : Time) (s : Store)
    (search : ProductSearch) : List (Product × Option TradeStatus) × Nat :=
  let queryset := searchQueryset x t s search
  let total := queryset.length
  let start := (search.page - 1) * 20
  let products := ((queryset.insertionSort search.sort.before).drop start).take 20
  (products.map fun r => (r, lifecycleStatus o s r.pk), total)

/-- What `product_list` gives its template. -/
structure ListPage where
  products : List (Product × ProductState)
  search : ProductSearch
  totalCount : Nat
  hasPrevious : Bool
  hasNext : Bool
  previousPage : Nat
  nextPage : Nat
  deriving DecidableEq

/-- `product_list`; an error is the text of the response with status 400. -/
def productList (x : SearchContext) (o : RowOrder) (t : Time) (s : Store) (params : QueryDict) :
    Parsed ListPage := do
  let search ← parseProductSearch x params
  let (products, total) := searchProducts x o t s search
  return {
    products := products.map fun (r, lifecycle) =>
      (r, attachEffectiveState o s r.pk (some lifecycle))
    search := search
    totalCount := total
    hasPrevious := decide (1 < search.page)
    hasNext := decide (search.page * 20 < total)
    previousPage := search.page - 1
    nextPage := search.page + 1 }

/-- The fields of a pagination form of `product_list.html`, with the page it asks for. -/
def paginationForm (search : ProductSearch) (page : Nat) : QueryDict :=
  [("q", search.q), ("category", search.category), ("region", search.region),
    ("status", search.status.text)]
  ++ (search.minPrice.map fun v => ("min_price", toString v)).toList
  ++ (search.maxPrice.map fun v => ("max_price", toString v)).toList
  ++ [("sort", search.sort.text), ("page", toString page)]

/-! ## The profile -/

inductive ProfileProductFilter where
  | all | available | sold
  deriving DecidableEq

/-- `_ProfileProductFilter(value)`, and `ALL` for any other text. -/
def ProfileProductFilter.ofText (value : String) : ProfileProductFilter :=
  if value == "available" then .available
  else if value == "sold" then .sold
  else .all

/-- The filter of the profile, on the annotation `lifecycle_status`. -/
def ProfileProductFilter.admits (selected : ProfileProductFilter)
    (lifecycle : Option TradeStatus) : Bool :=
  match selected with
  | .all => true
  | .available => sqlHolds (sqlOr (isNull lifecycle) (sqlNot (sqlEq lifecycle .completed)))
  | .sold => sqlHolds (sqlEq lifecycle .completed)

/-- The rows of the query of `_profile_product_page`. -/
def profileQueryset (o : RowOrder) (t : Time) (s : Store) (owner : Nat)
    (selected : ProfileProductFilter) : List Product :=
  (visibleProducts t s (s.products.filter (·.owner == owner))).filter fun r =>
    selected.admits (lifecycleStatus o s r.pk)

end Market
