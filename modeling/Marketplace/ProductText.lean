import Marketplace.Catalog
import Marketplace.Normalization

/-! # The texts of products

    `ProductCreateForm` and `ProductUpdateForm` of `catalog/forms.py` check the length of
    what was posted, and `Product.save` normalises it afterwards. -/

namespace Market

open CanonicalForm

/-! ## The forms -/

def TITLE_MAX_LENGTH : Nat := 120
def DESCRIPTION_MAX_LENGTH : Nat := 2000

/-- `forms.CharField(max_length=...).clean(raw)`: trimmed, required, within the length, and
    without null characters. -/
def cleanText (maxLength : Nat) (raw : String) : Option String :=
  let value := strip raw
  if value.isEmpty || decide (maxLength < value.length) || value.toList.contains '\x00' then none
  else some value

/-- What is posted to a product form: the texts, and the other fields as they are cleaned,
    if they are valid. -/
structure ProductFormData (Fields : Type) where
  title : String
  description : String
  others : Option Fields

/-- A `ProductFieldsForm`. -/
def cleanProductForm {Fields : Type} (fill : String → String → Fields → Fields)
    (data : ProductFormData Fields) : Option Fields := do
  let title ← cleanText TITLE_MAX_LENGTH data.title
  let description ← cleanText DESCRIPTION_MAX_LENGTH data.description
  let others ← data.others
  return fill title description others

/-- `ProductCreateForm`. -/
def cleanCreateForm : ProductFormData ProductFields → Option ProductFields :=
  cleanProductForm fun title description others =>
    { others with title := title, description := description }

/-- `ProductUpdateForm`. -/
def cleanUpdateForm : ProductFormData ProductUpdateFields → Option ProductUpdateFields :=
  cleanProductForm fun title description others =>
    { others with title := title, description := description }

/-- The platform whose `unicodedata` has the table. -/
def Platform.reading (p : Platform) (u : CharacterTable Char) : Platform :=
  { p with normalizeNfc := fun text => String.ofList (u.normalize text.toList) }

/-! ## What is stored -/

/-- The texts of the row are within their declared limits. -/
structure FitsColumns (r : Product) : Prop where
  title : r.title.length ≤ TITLE_MAX_LENGTH
  description : r.description.length ≤ DESCRIPTION_MAX_LENGTH

/-- Decomposing the text adds no more characters than the limit leaves room for and
    composing takes away again. -/
def RoomFor (u : CharacterTable Char) (maxLength : Nat) (text : String) : Prop :=
  u.decomposedLength text.toList ≤ maxLength + u.absorbed text.toList

variable {p : Platform} {u : CharacterTable Char} {n : Nat} {raw value : String}

theorem cleanText_eq (h : cleanText n raw = some value) : value = strip raw := by
  rw [cleanText] at h
  split at h
  · exact nomatch h
  · exact (Option.some.inj h).symm

theorem cleanProductForm_eq {Fields : Type} {fill : String → String → Fields → Fields}
    {data : ProductFormData Fields} {form : Fields} (h : cleanProductForm fill data = some form) :
    ∃ others, form = fill (strip data.title) (strip data.description) others := by
  simp only [cleanProductForm, Option.bind_eq_bind, Option.bind_eq_some_iff, Option.pure_def,
    Option.some.injEq] at h
  obtain ⟨title, htitle, description, hdescription, others, -, rfl⟩ := h
  rw [cleanText_eq htitle, cleanText_eq hdescription]
  exact ⟨others, rfl⟩

theorem length_normalizeNfc_le_iff (p : Platform) (u : CharacterTable Char) (n : Nat)
    (value : String) : ((p.reading u).normalizeNfc value).length ≤ n ↔ RoomFor u n value := by
  show (String.ofList _).length ≤ n ↔ _
  rw [String.length_ofList]
  exact u.length_normalize_le_iff _ _

/-- What `Product.save` makes of the texts. -/
theorem fill_fits_iff (form : ProductFields) (r : Product) :
    FitsColumns (form.fill (p.reading u) r) ↔
      RoomFor u TITLE_MAX_LENGTH form.title ∧
        RoomFor u DESCRIPTION_MAX_LENGTH form.description := by
  have htitle := length_normalizeNfc_le_iff p u TITLE_MAX_LENGTH form.title
  have hdescription := length_normalizeNfc_le_iff p u DESCRIPTION_MAX_LENGTH form.description
  constructor
  · intro h
    exact ⟨htitle.mp h.title, hdescription.mp h.description⟩
  · intro h
    exact ⟨htitle.mpr h.1, hdescription.mpr h.2⟩

/-- Texts whose characters decompose to one character each are stored within the limits. -/
theorem roomFor_of_inert {text : String} (hlength : text.length ≤ n)
    (h : ∀ c ∈ text.toList, (u.decomposition c).length ≤ 1) : RoomFor u n text := by
  refine (u.length_normalize_le_iff _ n).mp ((u.length_normalize_of_inert h).trans ?_)
  rw [String.length_toList]
  exact hlength

/-- Of characters that are excluded from composition half as many are within the limits. -/
theorem roomFor_of_uncomposed {text : String} (h : u.Uncomposed text.toList) :
    RoomFor u n text ↔ 2 * text.length ≤ n := by
  have hiff := u.length_normalize_le_iff text.toList n
  rw [h.length, String.length_toList] at hiff
  exact hiff.symm

/-- **ACCEPTED TEXTS**: what is stored of an accepted form is within the declared limits
    exactly when its trimmed texts leave room for their decomposition, less what composing
    absorbs: always where each character decomposes to one, and up to half of the limit where
    each is excluded from composition. -/
theorem accepted_text_fits_iff (p : Platform) (u : CharacterTable Char) (r : Product) :
    (∀ data form, cleanCreateForm data = some form →
      (FitsColumns (form.fill (p.reading u) r) ↔
        RoomFor u TITLE_MAX_LENGTH (strip data.title) ∧
          RoomFor u DESCRIPTION_MAX_LENGTH (strip data.description))) ∧
    (∀ data form, cleanUpdateForm data = some form →
      (FitsColumns (form.fill (p.reading u) r) ↔
        RoomFor u TITLE_MAX_LENGTH (strip data.title) ∧
          RoomFor u DESCRIPTION_MAX_LENGTH (strip data.description))) ∧
    (∀ n (text : String), text.length ≤ n →
      (∀ c ∈ text.toList, (u.decomposition c).length ≤ 1) → RoomFor u n text) ∧
    ∀ n (text : String), u.Uncomposed text.toList → (RoomFor u n text ↔ 2 * text.length ≤ n) := by
  refine ⟨fun data form h => ?_, fun data form h => ?_, fun n text hlength hinert => ?_,
    fun n text hexcluded => ?_⟩
  · obtain ⟨others, rfl⟩ := cleanProductForm_eq h
    exact fill_fits_iff _ r
  · obtain ⟨others, rfl⟩ := cleanProductForm_eq h
    exact fill_fits_iff _ r
  · exact roomFor_of_inert hlength hinert
  · exact roomFor_of_uncomposed hexcluded

/-! ## A character that is excluded from composition -/

/-- U+0958, and the letter and the sign that it decomposes to. -/
def DEVANAGARI_QA : Char := Char.ofNat 0x958
def DEVANAGARI_KA : Char := Char.ofNat 0x915
def DEVANAGARI_NUKTA : Char := Char.ofNat 0x93c

/-- The part of the table that these characters need. -/
def devanagari : CharacterTable Char where
  decomposition c := if c = DEVANAGARI_QA then [DEVANAGARI_KA, DEVANAGARI_NUKTA] else [c]
  combiningClass c := if c = DEVANAGARI_NUKTA then 7 else 0
  composite _ _ := none

theorem devanagari_excluded :
    devanagari.Excluded DEVANAGARI_QA DEVANAGARI_KA DEVANAGARI_NUKTA := by
  constructor <;> decide

theorem devanagari_uncomposed (k : Nat) :
    devanagari.Uncomposed (List.replicate k DEVANAGARI_QA) := by
  intro c hc
  rw [List.eq_of_mem_replicate hc]
  exact ⟨_, _, devanagari_excluded⟩

/-- A text of one character is accepted up to the limit. -/
theorem cleanText_replicate {c : Char} {k : Nat} (hspace : isSpace c = false) (hnull : c ≠ '\x00')
    (hpos : 0 < k) (hle : k ≤ n) :
    cleanText n (String.ofList (List.replicate k c)) =
      some (String.ofList (List.replicate k c)) := by
  have hstrip : strip (String.ofList (List.replicate k c)) =
      String.ofList (List.replicate k c) := by
    rw [strip, String.toList_ofList, List.dropWhile_replicate, hspace]
    simp [hspace]
  rw [cleanText, hstrip, if_neg]
  simp [String.length_ofList, Nat.not_lt.mpr hle, hnull.symm, Nat.pos_iff_ne_zero.mp hpos]

/-- A form whose title is 120 characters that are excluded from composition. -/
def qaForm : ProductFormData ProductFields where
  title := String.ofList (List.replicate 120 DEVANAGARI_QA)
  description := "lamp"
  others := some { title := "", description := "", price := 5, category := "OTHER" }

/-- **EXCLUDED**: the form is accepted, and the title that is stored has 240 characters. -/
theorem qaForm_overflows : ∃ form, cleanCreateForm qaForm = some form ∧
    ((form.fill (plainPlatform.reading devanagari) { pk := 11, owner := 1 }).title.length = 240 ∧
      ¬ FitsColumns (form.fill (plainPlatform.reading devanagari) { pk := 11, owner := 1 })) := by
  have hclean : ∃ form, cleanCreateForm qaForm = some form ∧
      form.title = String.ofList (List.replicate 120 DEVANAGARI_QA) := by
    have htext : cleanText TITLE_MAX_LENGTH qaForm.title = some qaForm.title :=
      cleanText_replicate (c := DEVANAGARI_QA) (by decide) (by decide) (by decide)
        (Nat.le_refl 120)
    rw [cleanCreateForm, cleanProductForm, htext]
    exact ⟨_, rfl, rfl⟩
  obtain ⟨form, hform, htitle⟩ := hclean
  have hlength : (form.fill (plainPlatform.reading devanagari)
      { pk := 11, owner := 1 }).title.length = 240 := by
    show (String.ofList (devanagari.normalize form.title.toList)).length = 240
    rw [htitle, String.toList_ofList, String.length_ofList, (devanagari_uncomposed 120).length,
      List.length_replicate]
  refine ⟨form, hform, hlength, fun h => ?_⟩
  have hle := h.title
  rw [hlength] at hle
  exact absurd hle (by decide)

/-- A form whose texts are their own decompositions. -/
def lampForm : ProductFormData ProductFields where
  title := "lamp"
  description := "as new"
  others := some { title := "", description := "", price := 5, category := "OTHER" }

/-- It is stored within the limits. -/
theorem accepted_text_fits_lamp : ∃ form, cleanCreateForm lampForm = some form ∧
    FitsColumns (form.fill (plainPlatform.reading devanagari) { pk := 11, owner := 1 }) := by
  have hclean : (cleanCreateForm lampForm).isSome = true := by decide +kernel
  obtain ⟨form, hform⟩ := Option.isSome_iff_exists.mp hclean
  -- character by character of the text, not over all characters
  have hinert : ∀ text : String,
      (text.toList.all fun c => decide ((devanagari.decomposition c).length ≤ 1)) = true →
      ∀ c ∈ text.toList, (devanagari.decomposition c).length ≤ 1 :=
    fun text h c hc => of_decide_eq_true (List.all_eq_true.mp h c hc)
  have hfits := (accepted_text_fits_iff plainPlatform devanagari { pk := 11, owner := 1 }).1
    lampForm form hform
  exact ⟨form, hform, hfits.mpr
    ⟨roomFor_of_inert (by decide +kernel) (hinert _ (by decide +kernel)),
      roomFor_of_inert (by decide +kernel) (hinert _ (by decide +kernel))⟩⟩

end Market
