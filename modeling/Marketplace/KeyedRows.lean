import Mathlib.Data.List.Basic

/-! # Rows that are looked up under a key

    A table is a list of rows, and a key leads to the first row that has it.  Rows are
    added at the end and rewritten in place, with their keys.  So a key that leads to a
    row leads to what became of that row ever after: `Onward` says so of two tables, for
    any relation between a row and what becomes of it. -/

namespace KeyedRows

variable {ρ κ : Type} [DecidableEq κ] {key : ρ → κ} {keep : ρ → ρ → Prop}
  {rows rows' rows'' : List ρ} {k : κ} {r : ρ}

/-- The row of a key. -/
def lookup (key : ρ → κ) (rows : List ρ) (k : κ) : Option ρ := rows.find? fun r => key r == k

theorem lookup_key (h : lookup key rows k = some r) : key r = k := by
  have hfound := List.find?_some h
  simpa using hfound

theorem lookup_eq_none : lookup key rows k = none ↔ rows.any (fun r => key r == k) = false := by
  simp [lookup]

/-- An added row is not in the way of the rows before it. -/
theorem lookup_append (h : lookup key rows k = some r) (more : List ρ) :
    lookup key (rows ++ more) k = some r := by
  rw [lookup, List.find?_append, show rows.find? _ = some r from h]
  rfl

/-- The first row of its key is found under it. -/
theorem lookup_added (h : lookup key rows (key r) = none) :
    lookup key (rows ++ [r]) (key r) = some r := by
  rw [lookup, List.find?_append, show rows.find? _ = none from h]
  simp

/-- Rows with other keys are not in the way. -/
theorem lookup_append_of_ne (h : key r ≠ k) : lookup key (rows ++ [r]) k = lookup key rows k := by
  have hone : [r].find? (fun r => key r == k) = none := by simp [h]
  rw [lookup, List.find?_append, hone, Option.or_none]
  rfl

/-- A row is found under its own key, when no other row has it. -/
theorem lookup_of_mem (hkeys : (rows.map key).Nodup) (h : r ∈ rows) :
    lookup key rows (key r) = some r := by
  induction rows with
  | nil => cases h
  | cons x rows ih =>
      rw [List.map_cons, List.nodup_cons] at hkeys
      rw [lookup, List.find?_cons]
      rcases List.mem_cons.mp h with rfl | h
      · simp
      · have hne : key x ≠ key r := by
          intro he
          exact hkeys.1 (he ▸ List.mem_map_of_mem h)
        rw [beq_false_of_ne hne]
        exact ih hkeys.2 h

theorem lookup_map {f : ρ → ρ} (hf : ∀ r, key (f r) = key r) :
    lookup key (rows.map f) k = (lookup key rows k).map f := by
  induction rows with
  | nil => rfl
  | cons r rows ih =>
      show ((f r) :: rows.map f).find? _ = ((r :: rows).find? _).map f
      rw [List.find?_cons, List.find?_cons, hf r]
      cases key r == k with
      | true => rfl
      | false => exact ih

/-- Every key that leads to a row leads to what became of it. -/
def Onward (key : ρ → κ) (keep : ρ → ρ → Prop) (rows rows' : List ρ) : Prop :=
  ∀ k r, lookup key rows k = some r → ∃ r', lookup key rows' k = some r' ∧ keep r r'

theorem Onward.refl (hkeep : ∀ r, keep r r) (rows : List ρ) : Onward key keep rows rows :=
  fun _ r h => ⟨r, h, hkeep r⟩

theorem Onward.trans (hkeep : ∀ r r' r'', keep r r' → keep r' r'' → keep r r'')
    (h : Onward key keep rows rows') (h' : Onward key keep rows' rows'') :
    Onward key keep rows rows'' := by
  intro k r hr
  obtain ⟨r', hr', hk⟩ := h k r hr
  obtain ⟨r'', hr'', hk'⟩ := h' k r' hr'
  exact ⟨r'', hr'', hkeep _ _ _ hk hk'⟩

theorem onward_map {f : ρ → ρ} (hf : ∀ r, key (f r) = key r) (hkeep : ∀ r, keep r (f r)) :
    Onward key keep rows (rows.map f) := by
  intro k r h
  refine ⟨f r, ?_, hkeep r⟩
  rw [lookup_map hf, h]
  rfl

theorem onward_append (hkeep : ∀ r, keep r r) (more : List ρ) :
    Onward key keep rows (rows ++ more) :=
  fun _ r h => ⟨r, lookup_append h more, hkeep r⟩

end KeyedRows
