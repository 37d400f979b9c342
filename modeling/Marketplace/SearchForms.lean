import Marketplace.ChatPayload
import Marketplace.Decimals
import Marketplace.Search

/-! # Searches through the pagination forms

    What `parse_product_search` accepts, written into the pagination forms of the list
    and parsed again. -/

namespace Market

variable {x : SearchContext} {params : QueryDict} {search : ProductSearch}

/-! ## What is accepted -/

/-- A parser that succeeds has succeeded at every step. -/
theorem parsed_bind {α β : Type} {m : Parsed α} {f : α → Parsed β} {b : β} :
    (m >>= f) = .ok b ↔ ∃ a, m = .ok a ∧ f a = .ok b := by
  cases m with
  | error e =>
      constructor
      · intro h
        exact nomatch h
      · rintro ⟨a, ha, -⟩
        exact nomatch ha
  | ok a =>
      constructor
      · intro h
        exact ⟨a, rfl, h⟩
      · rintro ⟨a', ha, h⟩
        rw [Except.ok.inj ha]
        exact h

/-- The parts of a query that was accepted. -/
structure Accepted (x : SearchContext) (params : QueryDict) (search : ProductSearch) : Prop where
  keys : checkKeys params = .ok ()
  q : parseQ x (params.get "q" "") = .ok search.q
  status : parseStatus (params.get "status" "") = .ok search.status
  sort : parseSort (params.get "sort" "newest") = .ok search.sort
  page : parsePage (params.get "page" "1") = .ok search.page
  minPrice : optionalPrice (params.get "min_price" "") = .ok search.minPrice
  maxPrice : optionalPrice (params.get "max_price" "") = .ok search.maxPrice
  prices : checkPrices search.minPrice search.maxPrice = .ok ()
  category : params.get "category" "" = search.category
  categoryCode : checkCode x.categories search.category "카테고리가 올바르지 않습니다." = .ok ()
  region : params.get "region" "" = search.region
  regionCode : checkCode x.regions search.region "지역이 올바르지 않습니다." = .ok ()

/-- **ACCEPTANCE**: what the parser accepts, field by field. -/
theorem parse_accepted : parseProductSearch x params = .ok search ↔ Accepted x params search := by
  simp only [parseProductSearch, parsed_bind]
  constructor
  · rintro ⟨_, hkeys, q, hq, status, hstatus, sort, hsort, page, hpage, minimum, hmin, maximum,
      hmax, _, hprices, _, hcategory, _, hregion, hsearch⟩
    obtain rfl := Except.ok.inj hsearch
    exact ⟨hkeys, hq, hstatus, hsort, hpage, hmin, hmax, hprices, rfl, hcategory, rfl, hregion⟩
  · intro h
    refine ⟨_, h.keys, _, h.q, _, h.status, _, h.sort, _, h.page, _, h.minPrice, _, h.maxPrice,
      _, h.prices, (), ?_, (), ?_, ?_⟩
    · rw [h.category]
      exact h.categoryCode
    · rw [h.region]
      exact h.regionCode
    · rw [h.category, h.region]
      rfl

/-! ## Texts -/

/-- What the search relies on of the normalization: twice is once, and a trimmed text
    stays trimmed. -/
structure LawfulNfc (normalizeNfc : String → String) : Prop where
  twice : ∀ t, normalizeNfc (normalizeNfc t) = normalizeNfc t
  trimmed : ∀ t, strip t = t → strip (normalizeNfc t) = normalizeNfc t

/-- The text that is kept is the normal form of the text without its margins. -/
theorem parseQ_text {raw q : String} (h : parseQ x raw = .ok q) :
    x.normalizeNfc (strip raw) = q := by
  rw [parseQ] at h
  split at h
  · exact nomatch h
  · exact Except.ok.inj h

/-- The text that was searched for is the one it is normalized to. -/
theorem parseQ_again (hx : LawfulNfc x.normalizeNfc) {raw q : String}
    (h : parseQ x raw = .ok q) : parseQ x q = .ok q := by
  have hq := parseQ_text h
  have hagain : x.normalizeNfc (strip q) = q := by
    rw [← hq, hx.trimmed _ (strip_strip raw), hx.twice]
  rw [parseQ, hq] at h
  rw [parseQ, hagain]
  exact h

/-! ## Numbers -/

/-- A number is printed in its decimal digits. -/
theorem toList_toString (n : Nat) : (toString n).toList = Nat.toDigits 10 n := by
  show (Nat.repr n).toList = _
  rw [Nat.repr, String.toList_ofList]

theorem toString_not_empty (n : Nat) : (toString n).isEmpty = false := by
  rw [← Bool.not_eq_true, String.isEmpty_iff]
  intro h
  have hlist := toList_toString n
  rw [h] at hlist
  exact Nat.toDigits_ne_nil hlist.symm

/-- A number in its range is read back. -/
theorem boundedInteger_toString {n low high : Nat} (hlow : low ≤ n) (hhigh : n ≤ high) :
    boundedInteger (toString n) low high = .ok n := by
  have hdigits : (toString n).toList.all Char.isDigit = true := by
    rw [toList_toString, List.all_eq_true]
    intro c hc
    exact Decimals.isDigit_of_mem hc
  rw [boundedInteger, toString_not_empty, hdigits]
  show (if low ≤ Nat.ofDigitChars 10 (toString n).toList 0 ∧ _ then _ else _) = _
  rw [toList_toString, Nat.ofDigitChars_ten_toDigits, if_pos ⟨hlow, hhigh⟩]

/-- A printed number is read back. -/
theorem boundedInteger_value {n m low high : Nat}
    (h : boundedInteger (toString n) low high = .ok m) : m = n := by
  rw [boundedInteger] at h
  split at h
  · exact nomatch h
  · dsimp only at h
    rw [toList_toString, Nat.ofDigitChars_ten_toDigits] at h
    split at h
    · exact (Except.ok.inj h).symm
    · exact nomatch h

/-- What is read is within its bounds. -/
theorem boundedInteger_range {raw : String} {n low high : Nat}
    (h : boundedInteger raw low high = .ok n) : low ≤ n ∧ n ≤ high := by
  rw [boundedInteger] at h
  split at h
  · exact nomatch h
  · dsimp only at h
    split at h
    · next hrange =>
        rw [← Except.ok.inj h]
        exact hrange
    · exact nomatch h

/-- A price that was read is read again from its own text. -/
theorem optionalPrice_again {raw : String} {price : Option Nat}
    (h : optionalPrice raw = .ok price) :
    optionalPrice ((price.map toString).getD "") = .ok price := by
  rw [optionalPrice] at h
  split at h
  · rw [← Except.ok.inj h]
    rfl
  · obtain ⟨n, hn, hprice⟩ := parsed_bind.mp h
    rw [← Except.ok.inj hprice]
    obtain ⟨hlow, hhigh⟩ := boundedInteger_range hn
    show optionalPrice (toString n) = _
    rw [optionalPrice, toString_not_empty, boundedInteger_toString hlow hhigh]
    rfl

/-- A page number is read back, from 1 to 500. -/
theorem parsePage_toString {p : Nat} (hp : 1 ≤ p) (hp' : p ≤ 500) :
    parsePage (toString p) = .ok p := by
  rw [parsePage, orElse, toString_not_empty]
  exact boundedInteger_toString hp hp'

/-! ## Choices -/

/-- A status is read back from its text. -/
theorem parseStatus_text (status : SearchStatus) : parseStatus status.text = .ok status := by
  cases status <;> simp [parseStatus, SearchStatus.text]

/-- An order is read back from its text. -/
theorem parseSort_text (sort : SearchSort) : parseSort sort.text = .ok sort := by
  cases sort <;> simp [parseSort, SearchSort.text, orElse]

/-! ## The forms -/

section Form

variable (search : ProductSearch) (page : Nat)

/-- The links of the pages use allowed keys, each once. -/
theorem paginationForm_keys : checkKeys (paginationForm search page) = .ok () := by
  rw [checkKeys, paginationForm]
  cases search.minPrice <;> cases search.maxPrice <;>
    simp [ALLOWED_KEYS, QueryDict.getlist]

/-- What the fields of a form are read as. -/
theorem paginationForm_get :
    let form := paginationForm search page
    form.get "q" "" = search.q ∧ form.get "status" "" = search.status.text ∧
      form.get "sort" "newest" = search.sort.text ∧ form.get "page" "1" = toString page ∧
      form.get "min_price" "" = (search.minPrice.map toString).getD "" ∧
      form.get "max_price" "" = (search.maxPrice.map toString).getD "" ∧
      form.get "category" "" = search.category ∧ form.get "region" "" = search.region := by
  rw [paginationForm]
  cases search.minPrice <;> cases search.maxPrice <;>
    simp [QueryDict.get, QueryDict.getlist]

end Form

/-- An accepted search, written into the form of any page, is accepted again as the same
    search on that page. -/
theorem form_accepted (hx : LawfulNfc x.normalizeNfc)
    (h : parseProductSearch x params = .ok search) {p : Nat} (hp : 1 ≤ p) (hp' : p ≤ 500) :
    parseProductSearch x (paginationForm search p) = .ok { search with page := p } := by
  have ha := parse_accepted.mp h
  obtain ⟨hq, hstatus, hsort, hpage, hmin, hmax, hcategory, hregion⟩ := paginationForm_get search p
  refine parse_accepted.mpr ⟨paginationForm_keys search p, ?_, ?_, ?_, ?_, ?_, ?_, ha.prices,
    hcategory, ha.categoryCode, hregion, ha.regionCode⟩
  · rw [hq]
    exact parseQ_again hx ha.q
  · rw [hstatus]
    exact parseStatus_text search.status
  · rw [hsort]
    exact parseSort_text search.sort
  · rw [hpage]
    exact parsePage_toString hp hp'
  · rw [hmin]
    exact optionalPrice_again ha.minPrice
  · rw [hmax]
    exact optionalPrice_again ha.maxPrice

/-- **ROUND TRIP**: the forms of an accepted search ask for the same search, as nothing is
    left to be trimmed or normalized in its text, and its numbers are read back. -/
theorem search_round_trip (hx : LawfulNfc x.normalizeNfc)
    (h : parseProductSearch x params = .ok search) :
    (∀ p, 1 ≤ p → p ≤ 500 →
      parseProductSearch x (paginationForm search p) = .ok { search with page := p }) ∧
    x.normalizeNfc (strip search.q) = search.q ∧
    ∀ raw n low high, boundedInteger raw low high = .ok n →
      boundedInteger (toString n) low high = .ok n := by
  refine ⟨fun p hp hp' => form_accepted hx h hp hp', ?_, fun raw n low high hn => ?_⟩
  · exact parseQ_text (parseQ_again hx (parse_accepted.mp h).q)
  · obtain ⟨hlow, hhigh⟩ := boundedInteger_range hn
    exact boundedInteger_toString hlow hhigh

/-- A plain platform, with two categories. -/
def plainSearch : SearchContext where
  normalizeNfc := id
  category := fun c => if c.toNat < 32 then "Cc" else "Lo"
  icontains := fun text q => text == q
  categories := ["BOOKS", "OTHER"]
  regions := []

theorem plainSearch_lawful : LawfulNfc plainSearch.normalizeNfc where
  twice _ := rfl
  trimmed _ h := h

/-- A search with blanks around its text and a price with leading zeros. -/
def untidyQuery : QueryDict :=
  [("q", " bicycle "), ("min_price", "0090"), ("category", "OTHER"), ("page", "")]

theorem search_round_trip_untidy :
    parseProductSearch plainSearch (paginationForm
      ⟨"bicycle", .all, some 90, none, .newest, 1, "OTHER", ""⟩ 7) =
      .ok ⟨"bicycle", .all, some 90, none, .newest, 7, "OTHER", ""⟩ := by
  have hparse : parseProductSearch plainSearch untidyQuery =
      .ok ⟨"bicycle", .all, some 90, none, .newest, 1, "OTHER", ""⟩ := by decide +kernel
  obtain ⟨hform, -, -⟩ := search_round_trip plainSearch_lawful hparse
  exact hform 7 (by decide) (by decide)

end Market
