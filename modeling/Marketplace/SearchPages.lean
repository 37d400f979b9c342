import Mathlib.Data.List.Sort
import Marketplace.GateProofs
import Marketplace.SearchForms

/-! # Walking the pages of a search

    A visitor starts on the first page and follows the form of the next one as long as
    the list shows it.  No page after the 500th is accepted, whatever the list shows. -/

namespace Market

variable {x : SearchContext} {o : RowOrder} {s : Store} {clock : Nat → Time} {t : Time}
  {params : QueryDict} {search : ProductSearch}

/-! ## The order of the products -/

instance SearchSort.total (sort : SearchSort) : Std.Total sort.before where
  total a b := by
    cases sort with
    | newest => exact Std.Total.total (r := descBy Product.createdAt Product.pk) a b
    | priceAsc =>
        show (a.price < b.price ∨ _) ∨ (b.price < a.price ∨ _)
        omega
    | priceDesc => exact Std.Total.total (r := descBy Product.price Product.pk) a b

instance SearchSort.trans (sort : SearchSort) : IsTrans Product sort.before where
  trans a b c h h' := by
    cases sort with
    | newest => exact IsTrans.trans (r := descBy Product.createdAt Product.pk) a b c h h'
    | priceAsc =>
        change a.price < b.price ∨ _ at h
        change b.price < c.price ∨ _ at h'
        show a.price < c.price ∨ _
        omega
    | priceDesc => exact IsTrans.trans (r := descBy Product.price Product.pk) a b c h h'

/-! ## One page -/

/-- The products that the filters of a search leave. -/
def matchingProducts (x : SearchContext) (t : Time) (s : Store) (search : ProductSearch) :
    List Product :=
  (visibleProducts t s s.products).filter fun r =>
    search.admits x r && search.status.admits (hasCompletedTrade s r.pk)

theorem visibleProducts_filter (queryset : List Product) :
    visibleProducts t s (queryset.filter (·.archivedAt.isNone)) = visibleProducts t s queryset := by
  simp only [visibleProducts, List.filter_filter, Bool.and_self]

theorem searchQueryset_eq :
    searchQueryset x t s search = matchingProducts x t s search := by
  rw [searchQueryset, visibleProducts_filter]
  rfl

/-- All products of a search, in its order. -/
def ordered (x : SearchContext) (t : Time) (s : Store) (search : ProductSearch) : List Product :=
  (matchingProducts x t s search).insertionSort search.sort.before

theorem length_ordered :
    (ordered x t s search).length = (matchingProducts x t s search).length :=
  List.length_insertionSort _ _

/-- The page that `product_list` shows of an accepted query. -/
structure Shows (x : SearchContext) (t : Time) (s : Store) (search : ProductSearch)
    (page : ListPage) : Prop where
  asked : page.search = search
  products : page.products.map (·.1) =
    ((ordered x t s search).drop ((search.page - 1) * 20)).take 20
  totalCount : page.totalCount = (ordered x t s search).length
  hasNext : page.hasNext = true ↔ search.page * 20 < (ordered x t s search).length
  nextPage : page.nextPage = search.page + 1

theorem productList_shows (h : parseProductSearch x params = .ok search) :
    ∃ page, productList x o t s params = .ok page ∧ Shows x t s search page := by
  rw [productList, h]
  refine ⟨_, rfl, rfl, ?_, ?_, ?_, rfl⟩
  · simp only [searchQueryset_eq, List.map_map]
    exact List.map_id _
  · rw [length_ordered, ← searchQueryset_eq]
  · rw [length_ordered, ← searchQueryset_eq]
    exact decide_eq_true_iff

theorem parsed_of_productList {page : ListPage} (h : productList x o t s params = .ok page) :
    parseProductSearch x params = .ok page.search := by
  rw [productList] at h
  obtain ⟨search, hsearch, hpage⟩ := parsed_bind.mp h
  rw [← Except.ok.inj hpage]
  exact hsearch

/-! ## The walk -/

/-- The pages of a walk that comes to its end: the request number `n` is made at
    `clock n`. -/
inductive Walks (x : SearchContext) (o : RowOrder) (s : Store) (clock : Nat → Time) :
    Nat → QueryDict → List ListPage → Prop where
  | last (n : Nat) (params : QueryDict) (page : ListPage) :
      productList x o (clock n) s params = .ok page → page.hasNext = false →
      Walks x o s clock n params [page]
  | next (n : Nat) (params : QueryDict) (page : ListPage) (rest : List ListPage) :
      productList x o (clock n) s params = .ok page → page.hasNext = true →
      Walks x o s clock (n + 1) (paginationForm page.search page.nextPage) rest →
      Walks x o s clock n params (page :: rest)

/-- The products of the pages, one page after the other. -/
def visited (pages : List ListPage) : List Product :=
  pages.flatMap fun page => page.products.map (·.1)

/-- The same products are shown at all times. -/
def Unchanging (s : Store) (clock : Nat → Time) : Prop :=
  ∀ n, visibleProducts (clock n) s s.products = visibleProducts (clock 0) s s.products

theorem Unchanging.ordered (h : Unchanging s clock) (n : Nat) :
    ordered x (clock n) s search = ordered x (clock 0) s search := by
  rw [Market.ordered, Market.ordered, matchingProducts, matchingProducts, h n]

theorem parsed_page (h : parseProductSearch x params = .ok search) :
    1 ≤ search.page ∧ search.page ≤ 500 :=
  boundedInteger_range (parse_accepted.mp h).page

/-- A form that asks for a page after the last one is not accepted. -/
theorem form_page_le {p : Nat} {search' : ProductSearch}
    (h : parseProductSearch x (paginationForm search p) = .ok search') : p ≤ 500 := by
  by_contra hp
  have hpage := (parse_accepted.mp h).page
  rw [(paginationForm_get search p).2.2.2.1, parsePage, orElse, toString_not_empty] at hpage
  have hvalue := boundedInteger_value hpage
  rw [← hvalue] at hp
  exact hp (boundedInteger_range hpage).2

/-- A list falls into what is before a page, the page, and what is after it. -/
theorem page_append_rest {α : Type} (l : List α) {p : Nat} (hp : 1 ≤ p) :
    (l.drop ((p - 1) * 20)).take 20 ++ l.drop (p * 20) = l.drop ((p - 1) * 20) := by
  have hnext : p * 20 = (p - 1) * 20 + 20 := by omega
  rw [hnext, ← List.drop_drop]
  exact List.take_append_drop 20 _

/-- What a walk from a page shows: what was left there, with the number of all products. -/
def ShowsRest (l : List Product) (p : Nat) (pages : List ListPage) : Prop :=
  visited pages = l.drop ((p - 1) * 20) ∧ ∀ page ∈ pages, page.totalCount = l.length

/-- The last page shows what is left. -/
theorem walks_last (hstill : Unchanging s clock) (n : Nat) {p : Nat}
    (h : parseProductSearch x params = .ok { search with page := p })
    (hlast : ¬ p * 20 < (ordered x (clock 0) s search).length) :
    ∃ pages, Walks x o s clock n params pages ∧
      ShowsRest (ordered x (clock 0) s search) p pages := by
  obtain ⟨page, hpage, hshows⟩ := productList_shows (o := o) (t := clock n) (s := s) h
  have hall : ordered x (clock n) s { search with page := p } =
      ordered x (clock 0) s search := hstill.ordered n
  have hp : 1 ≤ p := (parsed_page h).1
  have hnext : page.hasNext = false := by
    rw [← Bool.not_eq_true, hshows.hasNext, hall]
    exact hlast
  refine ⟨[page], .last n params page hpage hnext, ?_, ?_⟩
  · rw [visited, List.flatMap_singleton, hshows.products, hall]
    refine List.take_of_length_le ?_
    rw [List.length_drop]
    show _ - (p - 1) * 20 ≤ 20
    omega
  · intro page' hpage'
    rw [List.mem_singleton.mp hpage', hshows.totalCount, hall]

/-- **TO THE END**: when there are no more products than on 500 pages, the walk from a page
    ends, and shows what was left there. -/
theorem walks_from (hx : LawfulNfc x.normalizeNfc) (hstill : Unchanging s clock)
    (hlen : (ordered x (clock 0) s search).length ≤ 10000) (left n : Nat) :
    ∀ (params : QueryDict) (p : Nat), p + left = 500 →
      parseProductSearch x params = .ok { search with page := p } →
      ∃ pages, Walks x o s clock n params pages ∧
        ShowsRest (ordered x (clock 0) s search) p pages := by
  induction left generalizing n with
  | zero =>
      intro params p hp h
      exact walks_last hstill n h (by omega)
  | succ left ih =>
      intro params p hp h
      by_cases hmore : p * 20 < (ordered x (clock 0) s search).length
      · obtain ⟨page, hpage, hshows⟩ := productList_shows (o := o) (t := clock n) (s := s) h
        have hall : ordered x (clock n) s { search with page := p } =
            ordered x (clock 0) s search := hstill.ordered n
        have hnext : page.hasNext = true := by
          rw [hshows.hasNext, hall]
          exact hmore
        have hform : parseProductSearch x (paginationForm page.search page.nextPage) =
            .ok { search with page := p + 1 } := by
          rw [hshows.asked, hshows.nextPage]
          refine form_accepted hx h (Nat.succ_le_succ (Nat.zero_le p)) ?_
          show p + 1 ≤ 500
          omega
        obtain ⟨rest, hrest, hvisited, hcounts⟩ := ih (n + 1) _ (p + 1) (by omega) hform
        refine ⟨page :: rest, .next n params page rest hpage hnext hrest, ?_, ?_⟩
        · show page.products.map (·.1) ++ visited rest = _
          rw [hshows.products, hall, hvisited]
          exact page_append_rest _ (parsed_page h).1
        · intro page' hpage'
          rcases List.mem_cons.mp hpage' with rfl | hpage'
          · rw [hshows.totalCount, hall]
          · exact hcounts page' hpage'
      · exact walks_last hstill n h hmore

/-- A walk that ends does so within 500 pages. -/
theorem walks_bound (hx : LawfulNfc x.normalizeNfc) (hstill : Unchanging s clock) {n p : Nat}
    {pages : List ListPage} (hw : Walks x o s clock n params pages)
    (h : parseProductSearch x params = .ok { search with page := p }) :
    (ordered x (clock 0) s search).length ≤ 10000 := by
  induction hw generalizing p with
  | last n params page hpage hnext =>
      obtain ⟨page', hpage', hshows⟩ := productList_shows (o := o) (t := clock n) (s := s) h
      have hall : ordered x (clock n) s { search with page := p } =
          ordered x (clock 0) s search := hstill.ordered n
      rw [hpage] at hpage'
      obtain rfl := Except.ok.inj hpage'
      rw [← Bool.not_eq_true, hshows.hasNext, hall] at hnext
      have hp : p ≤ 500 := (parsed_page h).2
      change ¬ p * 20 < _ at hnext
      omega
  | next n params page rest hpage hnext hrest ih =>
      obtain ⟨page', hpage', hshows⟩ := productList_shows (o := o) (t := clock n) (s := s) h
      rw [hpage] at hpage'
      obtain rfl := Except.ok.inj hpage'
      -- the request for the next page has been accepted, so that there is such a page
      have hform : ∃ search', parseProductSearch x (paginationForm page.search page.nextPage) =
          .ok search' := by
        cases hrest with
        | last _ _ page' hpage' _ => exact ⟨_, parsed_of_productList hpage'⟩
        | next _ _ page' _ hpage' _ _ => exact ⟨_, parsed_of_productList hpage'⟩
      obtain ⟨search', hform⟩ := hform
      rw [hshows.asked, hshows.nextPage] at hform ih
      refine ih (p := p + 1) ?_
      exact form_accepted hx h (Nat.succ_le_succ (Nat.zero_le p)) (form_page_le hform)

/-! ## All pages -/

/-- Every product that is visible and matches is on one of the pages, once and in its place,
    and each page tells how many there are. -/
structure VisitsAll (x : SearchContext) (t : Time) (s : Store) (search : ProductSearch)
    (pages : List ListPage) : Prop where
  all : ∀ r, r ∈ visited pages ↔ r ∈ s.products ∧ r.archivedAt = none ∧
    hideInWindow r.pk t s = false ∧ search.admits x r = true ∧
    search.status.admits (hasCompletedTrade s r.pk) = true
  once : (visited pages).Nodup
  order : (visited pages).Pairwise search.sort.before
  count : ∀ page ∈ pages, page.totalCount = (visited pages).length

theorem mem_matchingProducts {r : Product} : r ∈ matchingProducts x t s search ↔
    r ∈ s.products ∧ r.archivedAt = none ∧ hideInWindow r.pk t s = false ∧
      search.admits x r = true ∧ search.status.admits (hasCompletedTrade s r.pk) = true := by
  rw [matchingProducts, List.mem_filter, mem_visibleProducts, Bool.and_eq_true, and_assoc,
    and_assoc]

theorem visitsAll_of_rest (hkeys : (s.products.map (·.pk)).Nodup) {pages : List ListPage}
    (h : ShowsRest (ordered x t s search) 1 pages) : VisitsAll x t s search pages := by
  obtain ⟨hvisited, hcount⟩ := h
  change visited pages = ordered x t s search at hvisited
  refine ⟨fun r => ?_, ?_, ?_, fun page hpage => ?_⟩
  · rw [hvisited, ordered, List.mem_insertionSort]
    exact mem_matchingProducts
  · rw [hvisited, ordered, List.Perm.nodup_iff (List.perm_insertionSort _ _)]
    have hproducts := hkeys.of_map
    exact ((hproducts.filter _).filter _).filter _
  · rw [hvisited]
    exact List.pairwise_insertionSort _ _
  · rw [hvisited]
    exact hcount page hpage

/-- **WALK**: from the first page the walk comes to its end and shows every product exactly
    when there are no more of them than on 500 pages. -/
theorem walk_visits_all (hx : LawfulNfc x.normalizeNfc) (hkeys : (s.products.map (·.pk)).Nodup)
    (hstill : Unchanging s clock) (h : parseProductSearch x params = .ok search)
    (hfirst : search.page = 1) :
    (∃ pages, Walks x o s clock 0 params pages ∧ VisitsAll x (clock 0) s search pages) ↔
      (matchingProducts x (clock 0) s search).length ≤ 10000 := by
  have hpage : parseProductSearch x params = .ok { search with page := 1 } := by
    rw [h, ← hfirst]
  rw [← length_ordered]
  constructor
  · rintro ⟨pages, hw, -⟩
    exact walks_bound hx hstill hw hpage
  · intro hlen
    obtain ⟨pages, hw, hrest⟩ := walks_from hx hstill hlen 499 0 params 1 rfl hpage
    exact ⟨pages, hw, visitsAll_of_rest hkeys hrest⟩

/-! ## Many products -/

/-- A market with `n` products for sale. -/
def productsForSale (n : Nat) : Store where
  products := (List.range n).map fun i => { pk := i, owner := 1 }

def plainOrder : RowOrder := ⟨id, fun _ => List.Perm.refl _⟩

/-- The search of the list without any parameter. -/
def plainList : ProductSearch := ⟨"", .all, none, none, .newest, 1, "", ""⟩

theorem parse_plainList : parseProductSearch plainSearch [] = .ok plainList := by
  decide +kernel

theorem length_productsForSale (n : Nat) :
    (matchingProducts plainSearch t (productsForSale n) plainList).length = n := by
  have hall : matchingProducts plainSearch t (productsForSale n) plainList =
      (productsForSale n).products := by
    rw [matchingProducts, visibleProducts, List.filter_filter, List.filter_filter,
      List.filter_eq_self]
    intro r hr
    obtain ⟨i, -, rfl⟩ := List.mem_map.mp hr
    rfl
  rw [hall, productsForSale, List.length_map, List.length_range]

/-- Two pages of 21 products. -/
theorem walk_visits_all_two_pages :
    ∃ pages, Walks plainSearch plainOrder (productsForSale 21) (fun n => n) 0 [] pages ∧
      VisitsAll plainSearch 0 (productsForSale 21) plainList pages := by
  refine (walk_visits_all plainSearch_lawful (by decide) (fun _ => rfl) parse_plainList
    rfl).mpr ?_
  rw [length_productsForSale]
  decide

/-- With 10,001 products the list shows a page 501, and no request for it is accepted. -/
theorem walk_of_many_products_fails :
    ¬ ∃ pages, Walks plainSearch plainOrder (productsForSale 10001) (fun n => n) 0 [] pages ∧
      VisitsAll plainSearch 0 (productsForSale 10001) plainList pages := by
  rintro ⟨pages, hw, -⟩
  have hlen : (ordered plainSearch 0 (productsForSale 10001) plainList).length ≤ 10000 :=
    walks_bound plainSearch_lawful (fun _ => rfl) hw parse_plainList
  rw [length_ordered, length_productsForSale] at hlen
  exact absurd hlen (by decide)

end Market
