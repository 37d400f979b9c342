import Mathlib.Data.List.Induction

/-! # Decimal digits

    Numbers written in decimal, read back, and told from what follows them. -/

namespace Decimals

/-- Different numbers are written differently. -/
theorem toDigits_injective : Function.Injective (Nat.toDigits 10) := by
  intro m n h
  have hm := Nat.ofDigitChars_ten_toDigits (n := m)
  rw [h, Nat.ofDigitChars_ten_toDigits] at hm
  exact hm.symm

theorem isDigit_of_mem {n : Nat} {c : Char} (h : c ∈ Nat.toDigits 10 n) : c.isDigit = true :=
  Nat.isDigit_of_mem_toDigits (by omega) (by omega) h

/-- What does not begin with a digit. -/
def NoDigit (r : List Char) : Prop := ∀ c ∈ r.head?, c.isDigit = false

/-- **SPLIT**: digits end where something else begins. -/
theorem split_digits {l l' r r' : List Char} (hl : ∀ c ∈ l, c.isDigit = true)
    (hl' : ∀ c ∈ l', c.isDigit = true) (hr : NoDigit r) (hr' : NoDigit r')
    (h : l ++ r = l' ++ r') : l = l' ∧ r = r' := by
  have stop : ∀ {r : List Char}, NoDigit r → r.takeWhile Char.isDigit = [] := by
    intro r hr
    cases r with
    | nil => rfl
    | cons c r =>
        rw [List.takeWhile_cons, hr c rfl]
        rfl
  have htake := congrArg (List.takeWhile Char.isDigit) h
  rw [List.takeWhile_append_of_pos hl, List.takeWhile_append_of_pos hl', stop hr, stop hr',
    List.append_nil, List.append_nil] at htake
  rw [htake] at h
  exact ⟨htake, List.append_cancel_left h⟩

/-- The character of a digit is that of its value. -/
theorem digitChar_of_isDigit {c : Char} (h : c.isDigit = true) :
    c.toNat - 48 < 10 ∧ Nat.digitChar (c.toNat - 48) = c := by
  have hrange : 48 ≤ c.toNat ∧ c.toNat ≤ 57 := Char.isDigit_iff_toNat.mp h
  have hlt : c.toNat - 48 < 10 := by omega
  refine ⟨hlt, Char.toNat_inj.mp ?_⟩
  rw [Nat.toNat_digitChar_of_lt_ten hlt]
  omega

/-- **READ AND WRITE**: digits without a leading zero are what is written of their value. -/
theorem toDigits_ofDigitChars {l : List Char} (hl : ∀ c ∈ l, c.isDigit = true) (hne : l ≠ [])
    (hzero : l.head? ≠ some '0') : Nat.toDigits 10 (Nat.ofDigitChars 10 l 0) = l := by
  induction l using List.reverseRecOn with
  | nil => exact absurd rfl hne
  | append_singleton l c ih =>
      obtain ⟨hlt, hc⟩ := digitChar_of_isDigit (hl c (List.mem_append_right _ List.mem_cons_self))
      rw [Nat.ofDigitChars_append, Nat.ofDigitChars_cons, Nat.ofDigitChars_nil]
      show Nat.toDigits 10 (10 * Nat.ofDigitChars 10 l 0 + (c.toNat - 48)) = _
      by_cases hnil : l = []
      · subst hnil
        show Nat.toDigits 10 (10 * 0 + (c.toNat - 48)) = [c]
        rw [Nat.mul_zero, Nat.zero_add, Nat.toDigits_of_lt_base hlt, hc]
      · have hhead : l.head? ≠ some '0' := by
          intro h
          rw [List.head?_append, h] at hzero
          exact hzero rfl
        have hrest := ih (fun x hx => hl x (List.mem_append_left _ hx)) hnil hhead
        have hpos : 0 < Nat.ofDigitChars 10 l 0 := by
          refine Nat.pos_of_ne_zero fun h => hhead ?_
          rw [h, Nat.toDigits_zero] at hrest
          rw [← hrest]
          rfl
        rw [← Nat.toDigits_append_toDigits (by omega) hpos hlt, hrest,
          Nat.toDigits_of_lt_base hlt, hc]

/-! ## Thousands -/

/-- A comma after every third character, when more follow. -/
def groups : List Char → List Char
  | a :: b :: c :: d :: rest => a :: b :: c :: ',' :: groups (d :: rest)
  | l => l

/-- The number in decimal, with commas between the thousands. -/
def thousands (n : Nat) : String :=
  String.ofList (groups (Nat.toDigits 10 n).reverse).reverse

/-- **GROUPING** adds commas and nothing else. -/
theorem filter_groups {l : List Char} (hl : ',' ∉ l) : (groups l).filter (· != ',') = l := by
  induction l using groups.induct with
  | case1 a b c d rest ih =>
      have hrest := ih fun h => hl (by simp [List.mem_cons.mp h])
      simp only [List.mem_cons, not_or] at hl
      obtain ⟨ha, hb, hc, -⟩ := hl
      simp [groups, hrest, Ne.symm ha, Ne.symm hb, Ne.symm hc]
  | case2 l hshort =>
      rw [groups]
      · refine List.filter_eq_self.mpr fun c hc => ?_
        simp only [bne_iff_ne]
        rintro rfl
        exact hl hc
      · exact hshort

theorem filter_thousands (n : Nat) :
    (thousands n).toList.filter (· != ',') = Nat.toDigits 10 n := by
  have hcomma : ',' ∉ (Nat.toDigits 10 n).reverse := by
    intro h
    have hdigit := isDigit_of_mem (List.mem_reverse.mp h)
    simp at hdigit
  rw [thousands, String.toList_ofList, List.filter_reverse, filter_groups hcomma,
    List.reverse_reverse]

end Decimals
