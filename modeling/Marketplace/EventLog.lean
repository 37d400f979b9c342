import Mathlib.Data.List.Basic

/-! # Views rebuilt from a log

    A log is only appended to, and some of its rows say what happened to a view of the state.
    `Records` says of a step that what it did to the view is what its rows say.  Steps
    compose, so the rows that a run has added, replayed on the view before it, give the view
    after it. -/

namespace EventLog

/-- A log of a state, what its rows mean, and the view that they tell of. -/
structure Projection (σ ρ ε ν : Type) where
  log : σ → List ρ
  decode : ρ → Option ε
  view : σ → ν
  apply : ε → ν → ν

variable {σ ρ ε ν : Type} {P : Projection σ ρ ε ν} {s s' s'' : σ} {r : ρ} {e : ε}

namespace Projection

/-- What the rows make of a view, one after the other. -/
def replay (P : Projection σ ρ ε ν) : List ρ → ν → ν
  | [], v => v
  | r :: rows, v =>
      match P.decode r with
      | some e => P.replay rows (P.apply e v)
      | none => P.replay rows v

/-- The rows that a step appends tell what it does to the view. -/
def Records (P : Projection σ ρ ε ν) (s s' : σ) : Prop :=
  ∃ rows, P.log s' = P.log s ++ rows ∧ P.view s' = P.replay rows (P.view s)

/-- The rows of a later state that an earlier one did not have. -/
def since (P : Projection σ ρ ε ν) (s s' : σ) : List ρ := (P.log s').drop (P.log s).length

@[simp] theorem replay_nil (v : ν) : P.replay [] v = v := rfl

theorem replay_some {rows : List ρ} {v : ν} (h : P.decode r = some e) :
    P.replay (r :: rows) v = P.replay rows (P.apply e v) := by
  simp [replay, h]

theorem replay_none {rows : List ρ} {v : ν} (h : P.decode r = none) :
    P.replay (r :: rows) v = P.replay rows v := by
  simp [replay, h]

theorem replay_append (rows rows' : List ρ) (v : ν) :
    P.replay (rows ++ rows') v = P.replay rows' (P.replay rows v) := by
  induction rows generalizing v with
  | nil => rfl
  | cons r rows ih =>
      cases h : P.decode r with
      | none => rw [List.cons_append, replay_none h, replay_none h, ih]
      | some e => rw [List.cons_append, replay_some h, replay_some h, ih]

/-! ## Steps -/

/-- A step that leaves log and view alone. -/
theorem Records.of_same (hlog : P.log s' = P.log s) (hview : P.view s' = P.view s) :
    P.Records s s' := by
  refine ⟨[], ?_, ?_⟩
  · rw [hlog, List.append_nil]
  · rw [hview, replay_nil]

theorem Records.refl (s : σ) : P.Records s s := Records.of_same rfl rfl

/-- A row that means nothing. -/
theorem Records.of_none (hnone : P.decode r = none) (hlog : P.log s' = P.log s ++ [r])
    (hview : P.view s' = P.view s) : P.Records s s' := by
  refine ⟨[r], hlog, ?_⟩
  rw [hview, replay_none hnone, replay_nil]

/-- One row, and the one thing that it says. -/
theorem Records.of_some (hsome : P.decode r = some e) (hlog : P.log s' = P.log s ++ [r])
    (hview : P.view s' = P.apply e (P.view s)) : P.Records s s' := by
  refine ⟨[r], hlog, ?_⟩
  rw [hview, replay_some hsome, replay_nil]

/-- **COMPOSITION**: what two steps did, their rows say in this order. -/
theorem Records.trans (h : P.Records s s') (h' : P.Records s' s'') : P.Records s s'' := by
  obtain ⟨rows, hlog, hview⟩ := h
  obtain ⟨rows', hlog', hview'⟩ := h'
  refine ⟨rows ++ rows', ?_, ?_⟩
  · rw [hlog', hlog, List.append_assoc]
  · rw [hview', hview, replay_append]

/-- Nothing is taken out of the log. -/
theorem Records.log_prefix (h : P.Records s s') : P.log s <+: P.log s' := by
  obtain ⟨rows, hlog, -⟩ := h
  rw [hlog]
  exact List.prefix_append _ _

/-- **REPLAY**: the new rows turn the view of the earlier state into that of the later. -/
theorem Records.view_eq (h : P.Records s s') :
    P.view s' = P.replay (P.since s s') (P.view s) := by
  obtain ⟨rows, hlog, hview⟩ := h
  have hsince : P.since s s' = rows := by
    rw [since, hlog, List.drop_left]
  rw [hsince, hview]

end Projection

end EventLog
