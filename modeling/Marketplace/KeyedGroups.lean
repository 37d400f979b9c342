import Mathlib.Data.List.Dedup
import Mathlib.Data.List.Perm.Subperm

/-! # Values grouped by key

    An association list of keys and the values that were filed under each of them, in the
    order they came in, no value twice under one key.  How many keys and how many values
    there are is bounded by how many were filed. -/

namespace KeyedGroups

variable {κ α : Type}

/-! ## Groups -/

/-- The value is filed under the key. -/
def Filed (g : List (κ × List α)) (k : κ) (a : α) : Prop := ∃ e ∈ g, e.1 = k ∧ a ∈ e.2

/-- One group for each key, none of them empty, and no value twice in one. -/
structure Grouped (g : List (κ × List α)) : Prop where
  keys : (g.map Prod.fst).Nodup
  once : ∀ e ∈ g, e.2.Nodup
  filled : ∀ e ∈ g, e.2 ≠ []

theorem grouped_nil : Grouped ([] : List (κ × List α)) where
  keys := List.nodup_nil
  once _ h := by cases h
  filled _ h := by cases h

theorem not_filed_nil (k : κ) (a : α) : ¬ Filed ([] : List (κ × List α)) k a := by
  rintro ⟨e, he, -⟩
  cases he

theorem filed_cons {e : κ × List α} {g : List (κ × List α)} {k : κ} {a : α} :
    Filed (e :: g) k a ↔ (e.1 = k ∧ a ∈ e.2) ∨ Filed g k a := by
  constructor
  · rintro ⟨x, hx, hk, ha⟩
    rcases List.mem_cons.mp hx with rfl | hx
    · exact Or.inl ⟨hk, ha⟩
    · exact Or.inr ⟨x, hx, hk, ha⟩
  · rintro (⟨hk, ha⟩ | ⟨x, hx, hk, ha⟩)
    · exact ⟨e, List.mem_cons_self, hk, ha⟩
    · exact ⟨x, List.mem_cons_of_mem _ hx, hk, ha⟩

/-! ## Filing -/

section Filing

variable [BEq κ] [BEq α]

/-- The value filed under the key, if it is not there yet. -/
def file (k : κ) (a : α) : List (κ × List α) → List (κ × List α)
  | [] => [(k, [a])]
  | (c, values) :: rest =>
      if c == k then (c, if values.contains a then values else values ++ [a]) :: rest
      else (c, values) :: file k a rest

/-- The pairs filed one after the other. -/
def fileAll (pairs : List (κ × α)) (g : List (κ × List α)) : List (κ × List α) :=
  pairs.foldl (fun g x => file x.1 x.2 g) g

variable [LawfulBEq α]

/-- A value that is added to a group that may have it. -/
theorem mem_added {values : List α} {a b : α} :
    b ∈ (if values.contains a then values else values ++ [a]) ↔ b ∈ values ∨ b = a := by
  split
  · next h =>
      rw [List.contains_iff_mem] at h
      constructor
      · exact Or.inl
      · rintro (hb | rfl)
        · exact hb
        · exact h
  · rw [List.mem_append, List.mem_singleton]

variable [LawfulBEq κ]

theorem filed_file (k : κ) (a : α) (g : List (κ × List α)) {k' : κ} {b : α} :
    Filed (file k a g) k' b ↔ Filed g k' b ∨ (k' = k ∧ b = a) := by
  induction g with
  | nil =>
      rw [file, filed_cons]
      constructor
      · rintro (⟨hk, hb⟩ | h)
        · exact Or.inr ⟨hk.symm, List.mem_singleton.mp hb⟩
        · exact absurd h (not_filed_nil _ _)
      · rintro (h | ⟨hk, hb⟩)
        · exact absurd h (not_filed_nil _ _)
        · exact Or.inl ⟨hk.symm, List.mem_singleton.mpr hb⟩
  | cons e g ih =>
      rw [file]
      by_cases hk : (e.1 == k) = true
      · rw [if_pos hk, filed_cons, filed_cons, mem_added, ← eq_of_beq hk]
        constructor
        · rintro (⟨rfl, hb | hb⟩ | h)
          · exact Or.inl (Or.inl ⟨rfl, hb⟩)
          · exact Or.inr ⟨rfl, hb⟩
          · exact Or.inl (Or.inr h)
        · rintro ((⟨rfl, hb⟩ | h) | ⟨rfl, hb⟩)
          · exact Or.inl ⟨rfl, Or.inl hb⟩
          · exact Or.inr h
          · exact Or.inl ⟨rfl, Or.inr hb⟩
      · rw [if_neg hk, filed_cons, filed_cons, ih, or_assoc]

omit [LawfulBEq α] in
/-- The keys that are there, and the one of the value. -/
theorem mem_keys_file (k : κ) (a : α) (g : List (κ × List α)) {k' : κ} :
    k' ∈ (file k a g).map Prod.fst ↔ k' ∈ g.map Prod.fst ∨ k' = k := by
  induction g with
  | nil => rw [file, List.map_cons, List.map_nil, List.mem_singleton]; simp
  | cons e g ih =>
      rw [file]
      by_cases hk : (e.1 == k) = true
      · rw [if_pos hk, List.map_cons, List.map_cons, List.mem_cons, ← eq_of_beq hk]
        constructor
        · exact Or.inl
        · rintro (h | h)
          · exact h
          · exact Or.inl h
      · rw [if_neg hk, List.map_cons, List.map_cons, List.mem_cons, List.mem_cons, ih, or_assoc]

theorem Grouped.file {g : List (κ × List α)} (h : Grouped g) (k : κ) (a : α) :
    Grouped (file k a g) := by
  induction g with
  | nil =>
      refine ⟨List.nodup_singleton _, fun e he => ?_, fun e he => ?_⟩
      · rw [List.mem_singleton.mp he]
        exact List.nodup_singleton _
      · rw [List.mem_singleton.mp he]
        exact List.cons_ne_nil _ _
  | cons e g ih =>
      obtain ⟨hkey, hkeys⟩ := List.nodup_cons.mp (List.map_cons ▸ h.keys)
      have hrest : Grouped g := ⟨hkeys, fun x hx => h.once x (List.mem_cons_of_mem _ hx),
        fun x hx => h.filled x (List.mem_cons_of_mem _ hx)⟩
      rw [KeyedGroups.file]
      by_cases hk : (e.1 == k) = true
      · rw [if_pos hk]
        refine ⟨h.keys, fun x hx => ?_, fun x hx => ?_⟩
        · rcases List.mem_cons.mp hx with rfl | hx
          · -- the group of the key, with the value if it was not there
            show (if e.2.contains a then e.2 else e.2 ++ [a]).Nodup
            have hold : e.2.Nodup := h.once e List.mem_cons_self
            split
            · exact hold
            · next hnew =>
                rw [List.contains_iff_mem] at hnew
                refine List.nodup_append.mpr ⟨hold, List.nodup_singleton _, ?_⟩
                rintro b hb c hc rfl
                rw [List.mem_singleton] at hc
                exact hnew (hc ▸ hb)
          · exact hrest.once x hx
        · rcases List.mem_cons.mp hx with rfl | hx
          · show (if e.2.contains a then e.2 else e.2 ++ [a]) ≠ []
            have hmem : a ∈ (if e.2.contains a then e.2 else e.2 ++ [a]) :=
              mem_added.mpr (Or.inr rfl)
            exact List.ne_nil_of_mem hmem
          · exact hrest.filled x hx
      · rw [if_neg hk]
        have htail := ih hrest
        refine ⟨?_, fun x hx => ?_, fun x hx => ?_⟩
        · rw [List.map_cons, List.nodup_cons]
          refine ⟨fun hm => ?_, htail.keys⟩
          rcases (mem_keys_file k a g).mp hm with hm | hm
          · exact hkey hm
          · exact hk (beq_iff_eq.mpr hm)
        · rcases List.mem_cons.mp hx with rfl | hx
          · exact h.once _ List.mem_cons_self
          · exact htail.once x hx
        · rcases List.mem_cons.mp hx with rfl | hx
          · exact h.filled _ List.mem_cons_self
          · exact htail.filled x hx

/-- **FILING**: groups stay groups, whatever is filed. -/
theorem Grouped.fileAll {g : List (κ × List α)} (h : Grouped g) (pairs : List (κ × α)) :
    Grouped (fileAll pairs g) := by
  induction pairs generalizing g with
  | nil => exact h
  | cons x pairs ih => exact ih (h.file x.1 x.2)

/-- **FILING**: what is there is what was there and what was filed. -/
theorem filed_fileAll (pairs : List (κ × α)) (g : List (κ × List α)) {k : κ} {a : α} :
    Filed (fileAll pairs g) k a ↔ Filed g k a ∨ (k, a) ∈ pairs := by
  induction pairs generalizing g with
  | nil => rw [fileAll, List.foldl_nil]; simp
  | cons x pairs ih =>
      rw [show fileAll (x :: pairs) g = fileAll pairs (file x.1 x.2 g) from rfl, ih, filed_file,
        List.mem_cons, Prod.ext_iff, or_assoc]

end Filing

/-! ## Counting -/

section Counting

variable {g : List (κ × List α)} {pairs : List (κ × α)}

/-- Distinct values of a list are no more than its different values. -/
theorem length_le_dedup [DecidableEq α] {l values : List α} (hnodup : l.Nodup)
    (hsub : ∀ a ∈ l, a ∈ values) :
    l.length ≤ values.dedup.length :=
  (hnodup.subperm fun a ha => List.mem_dedup.mpr (hsub a ha)).length_le

/-- Values that are filed under one key each are in one group each. -/
theorem Grouped.apart (h : Grouped g) (hfiled : ∀ k a, Filed g k a → (k, a) ∈ pairs)
    (hone : ∀ k k' a, (k, a) ∈ pairs → (k', a) ∈ pairs → k = k') :
    g.Pairwise fun e e' => ∀ a ∈ e.2, a ∉ e'.2 := by
  have hkeys : g.Pairwise fun e e' => e.1 ≠ e'.1 := List.pairwise_map.mp h.keys
  refine hkeys.imp_of_mem ?_
  intro e e' he he' hne a ha ha'
  exact hne (hone e.1 e'.1 a (hfiled _ _ ⟨e, he, rfl, ha⟩) (hfiled _ _ ⟨e', he', rfl, ha'⟩))

/-- No more groups than different keys. -/
theorem Grouped.length_keys_le [DecidableEq κ] (h : Grouped g)
    (hfiled : ∀ k a, Filed g k a → (k, a) ∈ pairs)
    (p : κ × List α → Bool) :
    (g.filter p).length ≤ (pairs.map Prod.fst).dedup.length := by
  have hkeys : ((g.filter p).map Prod.fst).Nodup :=
    h.keys.sublist (List.Sublist.map _ List.filter_sublist)
  have hlen : ((g.filter p).map Prod.fst).length ≤ (pairs.map Prod.fst).dedup.length := by
    refine length_le_dedup hkeys fun k hk => ?_
    obtain ⟨e, he, rfl⟩ := List.mem_map.mp hk
    have hmem : e ∈ g := (List.mem_filter.mp he).1
    obtain ⟨a, ha⟩ := List.exists_mem_of_ne_nil _ (h.filled e hmem)
    exact List.mem_map.mpr ⟨(e.1, a), hfiled e.1 a ⟨e, hmem, rfl, ha⟩, rfl⟩
  rw [List.length_map] at hlen
  exact hlen

/-- No more values in one group than different values. -/
theorem Grouped.length_group_le [DecidableEq α] (h : Grouped g)
    (hfiled : ∀ k a, Filed g k a → (k, a) ∈ pairs)
    {e : κ × List α} (he : e ∈ g) : e.2.length ≤ (pairs.map Prod.snd).dedup.length :=
  length_le_dedup (h.once e he) fun a ha =>
    List.mem_map.mpr ⟨(e.1, a), hfiled e.1 a ⟨e, he, rfl, ha⟩, rfl⟩

end Counting

end KeyedGroups
