import Mathlib.Algebra.Ring.Nat
import Mathlib.Data.List.Basic

/-! # Canonical composition

    The normalization form that decomposes a text, orders its marks and composes it again,
    over any table of characters.  What is of interest is its length: decomposition adds
    characters, and composition takes away those that it absorbs. -/

namespace CanonicalForm

/-- What the normalization reads of each character: its full canonical decomposition, its
    combining class, and the primary composite of a starter with the character after it. -/
structure CharacterTable (C : Type) where
  decomposition : C → List C
  combiningClass : C → Nat
  composite : C → C → Option C

variable {C : Type} (u : CharacterTable C)

namespace CharacterTable

/-! ## The algorithm -/

def decompose (l : List C) : List C := l.flatMap u.decomposition

/-- A mark goes behind the marks of a lower class. -/
def insertMark (c : C) : List C → List C
  | [] => [c]
  | d :: l =>
      if 0 < u.combiningClass d ∧ u.combiningClass d < u.combiningClass c then
        d :: insertMark c l
      else c :: d :: l

/-- The canonical ordering. -/
def reorder (l : List C) : List C := l.foldr u.insertMark []

/-- A character is blocked from the starter by a mark between them of its class or a
    higher one. -/
def blocked (marks : List C) (c : C) : Bool :=
  match marks.getLast? with
  | none => false
  | some m => u.combiningClass c ≤ u.combiningClass m

/-- The composite of the last starter with a character, unless the character is blocked. -/
def absorb (starter : C) (marks : List C) (c : C) : Option C :=
  if u.blocked marks c then none else u.composite starter c

/-- What the rest of a text is composed to, given the last starter and the marks that
    stayed behind it. -/
def composeFrom : Option (C × List C) → List C → List C
  | none, [] => []
  | some (s, marks), [] => s :: marks
  | none, c :: l =>
      if u.combiningClass c = 0 then composeFrom (some (c, [])) l
      else c :: composeFrom none l
  | some (s, marks), c :: l =>
      match u.absorb s marks c with
      | some x => composeFrom (some (x, marks)) l
      | none =>
          if u.combiningClass c = 0 then s :: marks ++ composeFrom (some (c, [])) l
          else composeFrom (some (s, marks ++ [c])) l

def normalize (l : List C) : List C := u.composeFrom none (u.reorder (u.decompose l))

/-! ## What is absorbed -/

/-- How many characters a starter absorbs in the rest of a text. -/
def absorbedFrom : Option (C × List C) → List C → Nat
  | _, [] => 0
  | none, c :: l =>
      if u.combiningClass c = 0 then absorbedFrom (some (c, [])) l else absorbedFrom none l
  | some (s, marks), c :: l =>
      match u.absorb s marks c with
      | some x => absorbedFrom (some (x, marks)) l + 1
      | none =>
          if u.combiningClass c = 0 then absorbedFrom (some (c, [])) l
          else absorbedFrom (some (s, marks ++ [c])) l

/-- How many characters of its ordered decomposition a text gets rid of again. -/
def absorbed (l : List C) : Nat := u.absorbedFrom none (u.reorder (u.decompose l))

/-- How many characters a text decomposes to. -/
def decomposedLength (l : List C) : Nat := (l.map fun c => (u.decomposition c).length).sum

/-! ## Lengths -/

@[simp] theorem length_insertMark (c : C) (l : List C) :
    (u.insertMark c l).length = l.length + 1 := by
  induction l with
  | nil => rfl
  | cons d l ih =>
      rw [insertMark]
      split
      · simp [ih]
      · rfl

@[simp] theorem length_reorder (l : List C) : (u.reorder l).length = l.length := by
  induction l with
  | nil => rfl
  | cons c l ih =>
      show (u.insertMark c (u.reorder l)).length = _
      simp [ih]

@[simp] theorem length_decompose (l : List C) :
    (u.decompose l).length = u.decomposedLength l := by
  rw [decompose, List.length_flatMap]
  rfl

/-- The characters that the composition has in hand. -/
def inHand : Option (C × List C) → Nat
  | none => 0
  | some (_, marks) => marks.length + 1

/-- **ABSORPTION**: composing loses the characters that are absorbed, and no others. -/
theorem length_composeFrom (state : Option (C × List C)) (l : List C) :
    (u.composeFrom state l).length + u.absorbedFrom state l = inHand state + l.length := by
  induction l generalizing state with
  | nil =>
      cases state with
      | none => rfl
      | some s => simp [composeFrom, absorbedFrom, inHand]
  | cons c l ih =>
      cases state with
      | none =>
          rw [composeFrom, absorbedFrom]
          split
          · have h := ih (some (c, []))
            simp only [inHand, List.length_nil, List.length_cons] at h ⊢
            omega
          · have h := ih none
            simp only [inHand, List.length_cons] at h ⊢
            omega
      | some s =>
          obtain ⟨s, marks⟩ := s
          rw [composeFrom, absorbedFrom]
          cases u.absorb s marks c with
          | some x =>
              have h := ih (some (x, marks))
              simp only [inHand, List.length_cons] at h ⊢
              omega
          | none =>
              dsimp only
              split
              · -- a new starter: the old one and its marks are done
                have h := ih (some (c, []))
                simp only [inHand, List.length_nil, List.length_cons, List.length_append,
                  List.cons_append] at h ⊢
                omega
              · have h := ih (some (s, marks ++ [c]))
                simp only [inHand, List.length_nil, List.length_cons, List.length_append] at h ⊢
                omega

/-- **LENGTH**: a normalized text is as long as its decomposition, less what is absorbed. -/
theorem length_normalize (l : List C) :
    (u.normalize l).length + u.absorbed l = u.decomposedLength l := by
  have h := u.length_composeFrom none (u.reorder (u.decompose l))
  simp only [inHand, length_reorder, length_decompose, Nat.zero_add] at h
  exact h

/-- The normalized text has at most `n` characters. -/
theorem length_normalize_le_iff (l : List C) (n : Nat) :
    (u.normalize l).length ≤ n ↔ u.decomposedLength l ≤ n + u.absorbed l := by
  have h := u.length_normalize l
  constructor
  · intro hle
    omega
  · intro hle
    omega

/-- **INERT**: a text does not get longer if each of its characters decomposes to one. -/
theorem length_normalize_of_inert {l : List C}
    (h : ∀ c ∈ l, (u.decomposition c).length ≤ 1) : (u.normalize l).length ≤ l.length := by
  refine (u.length_normalize_le_iff l l.length).mpr (Nat.le_add_right_of_le ?_)
  induction l with
  | nil => exact Nat.le_refl _
  | cons c l ih =>
      have hc := h c List.mem_cons_self
      have hl := ih fun d hd => h d (List.mem_cons_of_mem _ hd)
      simp only [decomposedLength, List.map_cons, List.sum_cons, List.length_cons] at hl ⊢
      omega

/-! ## Characters that are not composed again -/

/-- A character that decomposes to a starter and a mark that do not compose. -/
structure Excluded (c a b : C) : Prop where
  decomposition : u.decomposition c = [a, b]
  starter : u.combiningClass a = 0
  mark : 0 < u.combiningClass b
  apart : u.composite a b = none

/-- A text of such characters. -/
def Uncomposed (l : List C) : Prop := ∀ c ∈ l, ∃ a b, u.Excluded c a b

variable {u} {c a b : C} {l : List C}

theorem Excluded.decompose (h : u.Excluded c a b) (l : List C) :
    u.decompose (c :: l) = a :: b :: u.decompose l := by
  rw [CharacterTable.decompose, List.flatMap_cons, h.decomposition]
  rfl

/-- Nothing goes behind a starter. -/
theorem Excluded.insertMark (h : u.Excluded c a b) (d : C) (l : List C) :
    u.insertMark d (a :: l) = d :: a :: l := by
  rw [CharacterTable.insertMark, if_neg]
  rw [h.starter]
  exact fun hlt => Nat.lt_irrefl 0 hlt.1

/-- The decomposition of such a text is in canonical order. -/
theorem Uncomposed.reorder (h : u.Uncomposed l) : u.reorder (u.decompose l) = u.decompose l := by
  induction l with
  | nil => rfl
  | cons c l ih =>
      obtain ⟨a, b, hc⟩ := h c List.mem_cons_self
      have hl : u.Uncomposed l := fun d hd => h d (List.mem_cons_of_mem _ hd)
      have hmark : u.insertMark b (u.decompose l) = b :: u.decompose l := by
        cases l with
        | nil => rfl
        | cons d l =>
            obtain ⟨a', b', hd⟩ := hl d List.mem_cons_self
            rw [hd.decompose]
            exact hd.insertMark b _
      rw [hc.decompose]
      show u.insertMark a (u.insertMark b (u.reorder _)) = _
      rw [ih hl, hmark, CharacterTable.insertMark, if_neg]
      rw [hc.starter]
      exact fun hlt => Nat.not_lt_zero _ hlt.2

/-- Its starters are blocked by the mark before them, and absorb no mark. -/
theorem Uncomposed.absorbedFrom (h : u.Uncomposed l) (s m : C) :
    u.absorbedFrom (some (s, [m])) (u.decompose l) = 0 := by
  induction l generalizing s m with
  | nil => rfl
  | cons c l ih =>
      obtain ⟨a, b, hc⟩ := h c List.mem_cons_self
      have hblocked : u.absorb s [m] a = none := by
        rw [absorb, if_pos]
        show decide (u.combiningClass a ≤ u.combiningClass m) = true
        rw [hc.starter]
        exact decide_eq_true (Nat.zero_le _)
      have hapart : u.absorb a [] b = none := hc.apart
      rw [hc.decompose, CharacterTable.absorbedFrom, hblocked]
      dsimp only
      rw [if_pos hc.starter, CharacterTable.absorbedFrom, hapart]
      dsimp only
      rw [if_neg (Nat.pos_iff_ne_zero.mp hc.mark)]
      exact ih (fun d hd => h d (List.mem_cons_of_mem _ hd)) a b

theorem Uncomposed.absorbed (h : u.Uncomposed l) : u.absorbed l = 0 := by
  rw [CharacterTable.absorbed, h.reorder]
  cases l with
  | nil => rfl
  | cons c l =>
      obtain ⟨a, b, hc⟩ := h c List.mem_cons_self
      have hapart : u.absorb a [] b = none := hc.apart
      rw [hc.decompose, CharacterTable.absorbedFrom, if_pos hc.starter,
        CharacterTable.absorbedFrom, hapart]
      dsimp only
      rw [if_neg (Nat.pos_iff_ne_zero.mp hc.mark)]
      exact Uncomposed.absorbedFrom (fun d hd => h d (List.mem_cons_of_mem _ hd)) a b

/-- **EXCLUSION**: such characters become two each. -/
theorem Uncomposed.length (h : u.Uncomposed l) : (u.normalize l).length = 2 * l.length := by
  have hdecomposed : u.decomposedLength l = 2 * l.length := by
    induction l with
    | nil => rfl
    | cons c l ih =>
        obtain ⟨a, b, hc⟩ := h c List.mem_cons_self
        have hl := ih fun d hd => h d (List.mem_cons_of_mem _ hd)
        rw [decomposedLength] at hl ⊢
        rw [List.map_cons, List.sum_cons, hc.decomposition, hl, List.length_cons]
        show 2 + 2 * l.length = 2 * (l.length + 1)
        omega
  have hlength := u.length_normalize l
  rw [hdecomposed, h.absorbed] at hlength
  exact hlength

end CharacterTable

end CanonicalForm
