import Mathlib.Algebra.BigOperators.Group.List.Basic

/-! # Sums by key

    A sum over rows is the sum, over the keys that the rows may have, of the sums of the
    rows with each key. -/

namespace DoubleCounting

variable {ρ κ M : Type} [BEq κ] [LawfulBEq κ] [AddCommMonoid M]

/-- One row counts for its own key only. -/
theorem sum_single {keys : List κ} (hnodup : keys.Nodup) {k : κ} (hk : k ∈ keys) (x : M) :
    (keys.map fun k' => if k == k' then x else 0).sum = x := by
  induction keys with
  | nil => exact nomatch hk
  | cons a keys ih =>
      obtain ⟨ha, hnodup⟩ := List.nodup_cons.mp hnodup
      rw [List.map_cons, List.sum_cons]
      rcases List.mem_cons.mp hk with rfl | hk
      · have hzero : (keys.map fun k' => if k == k' then x else 0) = keys.map fun _ => 0 := by
          refine List.map_congr_left fun k' hk' => if_neg fun heq => ha ?_
          rw [beq_iff_eq.mp heq]
          exact hk'
        rw [if_pos (beq_self_eq_true k), hzero, List.sum_map_zero, add_zero]
      · have hne : ¬ (k == a) = true := fun h => ha (beq_iff_eq.mp h ▸ hk)
        rw [if_neg hne, zero_add]
        exact ih hnodup hk

/-- **DOUBLE COUNTING**: over the keys, and over the rows. -/
theorem sum_by_key {rows : List ρ} {keys : List κ} (key : ρ → κ) (f : ρ → M)
    (hnodup : keys.Nodup) (hkeys : ∀ r ∈ rows, key r ∈ keys) :
    (keys.map fun k => ((rows.filter fun r => key r == k).map f).sum).sum =
      (rows.map f).sum := by
  induction rows with
  | nil =>
      show (keys.map fun _ => (0 : M)).sum = 0
      exact List.sum_map_zero
  | cons r rows ih =>
      have hrow : ∀ k, ((((r :: rows).filter fun r => key r == k)).map f).sum =
          (if key r == k then f r else 0) +
            ((rows.filter fun r => key r == k).map f).sum := by
        intro k
        rw [List.filter_cons]
        split
        · rw [List.map_cons, List.sum_cons]
        · rw [zero_add]
      simp only [hrow, List.sum_map_add]
      rw [sum_single hnodup (hkeys r List.mem_cons_self),
        ih fun x hx => hkeys x (List.mem_cons_of_mem _ hx), List.map_cons, List.sum_cons]

end DoubleCounting
