import Mathlib.Logic.Function.Basic
import Mathlib.Logic.Relation
import Marketplace.TxnSoundness

/-! # Schedules that can be computed

    A schedule is a list of turns: one session executes so many statements, none of
    which fails, or time passes.  A session that has its turn while no other one holds
    a lock need not wait, so that playing a schedule is a run of the system, and its
    final configuration can be evaluated. -/

namespace TxnSchedule

open TxnProgram TxnInterleaving TxnSoundness

variable {S L E V α : Type} {n : Nat}

/-- Execute so many statements; made-up values come from `ids`. -/
def advance (deferred : S → S → Option E) :
    Nat → Prog S L E V α → (Nat → Nat) → World S L V → Prog S L E V α × World S L V
  | 0, m, _, w => (m, w)
  | _ + 1, .ret a, _, w => (.ret a, w)
  | _ + 1, .raise e, _, w => (.raise e, w)
  | k + 1, .begin m, ids, w => advance deferred k m ids w.begin
  | k + 1, .commit m, ids, w =>
      advance deferred k (m (w.commit deferred).1) ids (w.commit deferred).2
  | k + 1, .rollback m, ids, w => advance deferred k m ids w.rollback
  | k + 1, .lock l m, ids, w => advance deferred k (m (.ok ())) ids (w.hold l)
  | k + 1, .query m, ids, w => advance deferred k (m (.ok (w.stamp, w.view))) ids w
  | k + 1, .update f m, ids, w => advance deferred k (m (.ok ())) ids (w.write f)
  | k + 1, .choose m, ids, w => advance deferred k (m (ids 0)) (fun j => ids (j + 1)) w
  | k + 1, .mark v m, ids, w => advance deferred k m ids (w.note v)

/-- One turn of a schedule. -/
inductive Turn (n : Nat) where
  | run (i : Fin n) (statements : Nat) (ids : Nat → Nat)
  | wait (t : Nat)

/-- The configuration after a turn; a session has to wait for the locks of others. -/
def Turn.play (deferred : S → S → Option E) (c : Config (Fin n) S L E V α) :
    Turn n → Option (Config (Fin n) S L E V α)
  | .run i k ids =>
      if ∀ j, j ≠ i → (c.sess j).held.isEmpty = true then
        let out := advance deferred k (c.prog i) ids (c.world i)
        some (c.put i out.1 out.2)
      else none
  | .wait t => some { c with now := c.now + t }

/-- The configuration after a schedule. -/
def play (deferred : S → S → Option E) :
    List (Turn n) → Config (Fin n) S L E V α → Option (Config (Fin n) S L E V α)
  | [], c => some c
  | turn :: turns, c => (turn.play deferred c).bind (play deferred turns)

/-! ## Playing a schedule is a run -/

section Runs

variable {D : Database S L E} {c c' : Config (Fin n) S L E V α} {i : Fin n}

/-- A session that has moved on is where it moved to. -/
theorem put_world {m : Prog S L E V α} {w : World S L V} (hnow : w.now = c.now) :
    (c.put i m w).world i = w := by
  show (⟨w.db, c.now, Function.update c.sess i w.sess i⟩ : World S L V) = w
  rw [Function.update_self, ← hnow]

theorem put_put {m m' : Prog S L E V α} {w w' : World S L V} :
    (c.put i m w).put i m' w' = c.put i m' w' := by
  simp [Config.put]

/-- **TURN**: a session that nobody holds up executes its statements. -/
theorem reaches_advance {k : Nat} {ids : Nat → Nat}
    (hfree : ∀ j, j ≠ i → (c.sess j).held = []) :
    Reaches D c (c.put i (advance D.deferred k (c.prog i) ids (c.world i)).1
      (advance D.deferred k (c.prog i) ids (c.world i)).2) := by
  have hstay : c.put i (c.prog i) (c.world i) = c := by
    simp [Config.put, Config.world]
  induction k generalizing c ids with
  | zero =>
      rw [advance, hstay]
      exact Reaches.refl D c
  | succ k ih =>
      -- one statement, and the rest from where it leads
      have step : ∀ {m : Prog S L E V α} {w : World S L V} {ids : Nat → Nat},
          LocalStep D (c.prog i, c.world i) (m, w) →
          Reaches D c (c.put i (advance D.deferred k m ids w).1
            (advance D.deferred k m ids w).2) := by
        intro m w ids hloc
        have hnow : w.now = c.now := now_localStep hloc
        have hs : Step D (some i) c (c.put i m w) := by
          refine Step.session c i m w hloc fun j hj x hx => ?_
          rw [hfree j hj] at hx
          cases hx
        have hprog : (c.put i m w).prog i = m := Function.update_self ..
        have hrest := @ih (c.put i m w) ids ?_ ?_
        · rw [hprog, put_world hnow, put_put] at hrest
          exact ((Reaches.refl D c).step hs).trans hrest
        · intro j hj
          show (Function.update c.sess i w.sess j).held = []
          rw [Function.update_of_ne hj]
          exact hfree j hj
        · rw [hprog, put_world hnow, put_put]
      generalize hm : c.prog i = m at step
      generalize hw : c.world i = w at step
      cases m with
      | ret a =>
          rw [hm, hw] at hstay
          rw [advance, hstay]
          exact Reaches.refl D c
      | raise e =>
          rw [hm, hw] at hstay
          rw [advance, hstay]
          exact Reaches.refl D c
      | begin m => exact step (.begin m w)
      | commit m => exact step (.commit m w)
      | rollback m => exact step (.rollback m w)
      | lock l m => exact step (.lock l m w)
      | query m => exact step (.query m w)
      | update f m => exact step (.update f m w)
      | choose m => exact step (.choose m w (ids 0))
      | mark v m => exact step (.mark v m w)

theorem reaches_turn {turn : Turn n} (h : turn.play D.deferred c = some c') :
    Reaches D c c' := by
  cases turn with
  | run i k ids =>
      rw [Turn.play] at h
      split at h
      · rename_i hfree
        cases h
        exact reaches_advance fun j hj => List.isEmpty_iff.mp (hfree j hj)
      · exact nomatch h
  | wait t =>
      have hc : { c with now := c.now + t } = c' := Option.some.inj h
      rw [← hc]
      exact (Reaches.refl D _).step (Step.tick _ _ (Nat.le_add_right _ _))

/-- **SCHEDULE**: the configuration that is computed is reached. -/
theorem reaches_play {turns : List (Turn n)} (h : play D.deferred turns c = some c') :
    Reaches D c c' := by
  induction turns generalizing c with
  | nil =>
      cases h
      exact Reaches.refl D _
  | cons turn turns ih =>
      obtain ⟨d, hd, h⟩ := Option.bind_eq_some_iff.mp h
      exact (reaches_turn hd).trans (ih h)

/-- A session that has no turn stays where it is. -/
theorem play_absent {deferred : S → S → Option E} {turns : List (Turn n)}
    (h : play deferred turns c = some c')
    (habsent : ∀ k ids, Turn.run i k ids ∉ turns) :
    c'.prog i = c.prog i ∧ c'.sess i = c.sess i := by
  induction turns generalizing c with
  | nil =>
      cases h
      exact ⟨rfl, rfl⟩
  | cons turn turns ih =>
      obtain ⟨d, hd, h⟩ := Option.bind_eq_some_iff.mp h
      obtain ⟨hprog, hsess⟩ := ih h fun k ids hmem => habsent k ids (List.mem_cons_of_mem _ hmem)
      rw [hprog, hsess]
      cases turn with
      | wait t =>
          cases Option.some.inj hd
          exact ⟨rfl, rfl⟩
      | run j k ids =>
          have hji : i ≠ j := by
            rintro rfl
            exact habsent k ids List.mem_cons_self
          rw [Turn.play] at hd
          split at hd
          · cases hd
            exact ⟨Function.update_of_ne hji .., Function.update_of_ne hji ..⟩
          · exact nomatch hd

/-- What a schedule computes is so somewhere in a run. -/
theorem reaches_of_play {β : Type} {turns : List (Turn n)}
    {f : Config (Fin n) S L E V α → β} {b : β}
    (h : (play D.deferred turns c).map f = some b) : ∃ c', Reaches D c c' ∧ f c' = b := by
  obtain ⟨d, hd, hf⟩ := Option.map_eq_some_iff.mp h
  exact ⟨d, reaches_play hd, hf⟩

/-- The same for two places of one run. -/
theorem reaches_of_plays {β γ : Type} {turns turns' : List (Turn n)}
    {f : Config (Fin n) S L E V α → β} {g : Config (Fin n) S L E V α → γ} {b : β} {b' : γ}
    (h : ((play D.deferred turns c).bind fun d =>
      (play D.deferred turns' d).map fun d' => (f d, g d')) = some (b, b')) :
    ∃ d d', Reaches D c d ∧ Reaches D d d' ∧ f d = b ∧ g d' = b' := by
  obtain ⟨d, hd, h⟩ := Option.bind_eq_some_iff.mp h
  obtain ⟨d', hd', hfg⟩ := Option.map_eq_some_iff.mp h
  cases hfg
  exact ⟨d, d', reaches_play hd, reaches_play hd', rfl, rfl⟩

end Runs

/-! ## What was observed -/

/-- The observations of a history, newest first. -/
def marksOf : List (Event S V) → List (Nat × S × V)
  | [] => []
  | .committed _ _ :: h => marksOf h
  | .marked now db v :: h => (now, db, v) :: marksOf h

theorem mem_marksOf {h : List (Event S V)} {now : Nat} {db : S} {v : V} :
    (now, db, v) ∈ marksOf h ↔ Event.marked now db v ∈ h := by
  induction h with
  | nil => simp [marksOf]
  | cons e h ih => cases e <;> simp [marksOf, ih, eq_comm]

/-- The observations of a history can be gone through. -/
theorem sees_iff {P : V → Nat → S → Prop} {h : List (Event S V)} :
    Sees P h ↔ ∀ x ∈ marksOf h, P x.2.2 x.1 x.2.1 := by
  constructor
  · rintro hs ⟨now, db, v⟩ hx
    exact hs now db v (mem_marksOf.mp hx)
  · intro hs now db v hm
    exact hs _ (mem_marksOf.mpr hm)

/-- All that was observed in a configuration. -/
theorem allSee_iff {ι : Type} {P : V → Nat → S → Prop} {c : Config ι S L E V α} :
    AllSee (fun _ => P) c ↔ ∀ i, ∀ x ∈ marksOf (c.sess i).hist, P x.2.2 x.1 x.2.1 :=
  forall_congr' fun _ => sees_iff

end TxnSchedule
