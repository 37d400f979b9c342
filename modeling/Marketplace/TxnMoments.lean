import Mathlib.Logic.Function.Basic
import Mathlib.Logic.Relation
import Marketplace.TxnSoundness

/-! # What a session that only reads has seen

    A session without writes of its own reads the committed store as it is when each of
    its statements runs.  So its answer rests on moments of the run: `Finds R F m P G` is
    about a program `m` that writes nothing, and says what it answers (`P`) and raises
    (`G`) when each of its statements sees some moment of `R`, or fails with `F`.

    `reads_reached` is the soundness: in every interleaving the session has changed
    nothing, and what it ended with is so for the moments between two configurations. -/

namespace TxnMoments

open TxnProgram TxnInterleaving

variable {S L E V α β : Type} {R : Nat → S → Prop} {F : E → Prop}

/-- When each statement of the program sees a moment of `R` or fails with `F`, it writes
    nothing and ends with `Q`. -/
def Reads (R : Nat → S → Prop) (F : E → Prop) :
    Prog S L E V α → (Except E α → Prop) → Prop
  | .ret a, Q => Q (.ok a)
  | .raise e, Q => Q (.error e)
  | .begin k, Q => Reads R F k Q
  | .commit k, Q => Reads R F (k (.ok ())) Q ∧ ∀ e, F e → Reads R F (k (.error e)) Q
  | .rollback k, Q => Reads R F k Q
  | .lock _ k, Q => Reads R F (k (.ok ())) Q ∧ ∀ e, F e → Reads R F (k (.error e)) Q
  | .query k, Q => (∀ start now s, R now s → Reads R F (k (.ok (⟨start, now⟩, s))) Q) ∧
      ∀ e, F e → Reads R F (k (.error e)) Q
  | .update _ _, _ => False
  | .choose k, Q => ∀ n, Reads R F (k n) Q
  | .mark _ k, Q => Reads R F k Q

/-- One condition from `P` for answers and `G` for errors. -/
def either (P : α → Prop) (G : E → Prop) : Except E α → Prop
  | .ok a => P a
  | .error e => G e

/-- The program reads only, and answers with `P` or raises with `G`. -/
def Finds (R : Nat → S → Prop) (F : E → Prop) (m : Prog S L E V α) (P : α → Prop)
    (G : E → Prop) : Prop :=
  Reads R F m (either P G)

/-- Something is so at some moment. -/
def Sometime (R : Nat → S → Prop) (Q : Nat → S → Prop) : Prop := ∃ now s, R now s ∧ Q now s

/-- Something is so at the moment, where there is one only. -/
def Once (R : Nat → S → Prop) (Q : Nat → S → Prop) : Prop :=
  ∀ now s, (∀ now' s', R now' s' ↔ now' = now ∧ s' = s) → Q now s

/-- What holds at some moment holds at the only one. -/
theorem Sometime.once {Q : Nat → S → Prop} (h : Sometime R Q) : Once R Q := by
  intro now s honly
  obtain ⟨now', s', hs, hq⟩ := h
  obtain ⟨rfl, rfl⟩ := (honly now' s').mp hs
  exact hq

/-! ## Rules -/

section Rules

variable {G : E → Prop} {P : α → Prop} {m : Prog S L E V α}

/-- A reading program may be told to answer less. -/
theorem Reads.mono {Q Q' : Except E α → Prop} (hQ : ∀ r, Q r → Q' r) :
    Reads R F m Q → Reads R F m Q' := by
  induction m with
  | ret a => exact hQ _
  | raise e => exact hQ _
  | begin k ih => exact ih
  | commit k ih => exact fun h => ⟨ih _ h.1, fun e he => ih _ (h.2 e he)⟩
  | rollback k ih => exact ih
  | lock l k ih => exact fun h => ⟨ih _ h.1, fun e he => ih _ (h.2 e he)⟩
  | query k ih =>
      exact fun h => ⟨fun start now s hs => ih _ (h.1 start now s hs),
        fun e he => ih _ (h.2 e he)⟩
  | update f k ih => exact fun h => h
  | choose k ih => exact fun h n => ih n (h n)
  | mark v k ih => exact ih

/-- A program and what follows it. -/
theorem Reads.andThen {Q : Except E β → Prop} {f : Except E α → Prog S L E V β} :
    Reads R F m (fun r => Reads R F (f r) Q) → Reads R F (m.andThen f) Q := by
  induction m with
  | ret a => exact fun h => h
  | raise e => exact fun h => h
  | begin k ih => exact ih
  | commit k ih => exact fun h => ⟨ih _ h.1, fun e he => ih _ (h.2 e he)⟩
  | rollback k ih => exact ih
  | lock l k ih => exact fun h => ⟨ih _ h.1, fun e he => ih _ (h.2 e he)⟩
  | query k ih =>
      exact fun h => ⟨fun start now s hs => ih _ (h.1 start now s hs),
        fun e he => ih _ (h.2 e he)⟩
  | update f k ih => exact fun h => h
  | choose k ih => exact fun h n => ih n (h n)
  | mark v k ih => exact ih

/-- What is found, and what fails, may be weakened. -/
theorem Finds.mono {P' : α → Prop} {G' : E → Prop} (h : Finds R F m P G)
    (hP : ∀ a, P a → P' a) (hG : ∀ e, G e → G' e) : Finds R F m P' G' := by
  refine Reads.mono ?_ h
  rintro (e | a) hr
  · exact hG e hr
  · exact hP a hr

/-- A return reads nothing. -/
theorem Finds.ret {a : α} (h : P a) : Finds R F (.ret a : Prog S L E V α) P G := h

/-- An exception reads nothing. -/
theorem Finds.raise {e : E} (h : G e) : Finds R F (.raise e : Prog S L E V α) P G := h

/-- **SEQUENCING**. -/
theorem Finds.bind {f : α → Prog S L E V β} {Q : β → Prop} (hm : Finds R F m P G)
    (hf : ∀ a, P a → Finds R F (f a) Q G) : Finds R F (m >>= f) Q G := by
  refine Reads.andThen (Reads.mono ?_ hm)
  rintro (e | a) hr
  · exact hr
  · exact hf a hr

/-- **HANDLING**. -/
theorem Finds.tryCatch {f : E → Prog S L E V α} {G' : E → Prop} (hm : Finds R F m P G')
    (hf : ∀ e, G' e → Finds R F (f e) P G) : Finds R F (m.tryCatch f) P G := by
  refine Reads.andThen (Reads.mono ?_ hm)
  rintro (e | a) hr
  · exact hf e hr
  · exact hr

/-- **READING**: the answer is that of one moment. -/
theorem Finds.select (hF : ∀ e, F e → G e) (q : Stamp → S → α) :
    Finds R F (Prog.select q : Prog S L E V α)
      (fun a => ∃ start now s, R now s ∧ a = q ⟨start, now⟩ s) G := by
  refine ⟨fun start now s hs => ⟨start, now, s, hs, rfl⟩, fun e he => hF e he⟩

theorem Finds.acquireAll (hF : ∀ e, F e → G e) (ls : List L) :
    Finds R F (Prog.acquireAll ls : Prog S L E V Unit) (fun _ => True) G := by
  induction ls with
  | nil => exact trivial
  | cons l ls ih => exact ⟨ih, fun e he => hF e he⟩

/-- Past a guard its condition is false. -/
theorem Finds.raiseIf {c : Bool} {e : E} (h : c = true → G e) :
    Finds R F (Prog.raiseIf c e : Prog S L E V Unit) (fun _ => c = false) G := by
  cases c with
  | true => exact h rfl
  | false => exact rfl

/-- **TRANSACTION** that changes nothing. -/
theorem Finds.atomic (hF : ∀ e, F e → G e) (hm : Finds R F m P G) :
    Finds R F (Prog.atomic m) P G := by
  refine Reads.andThen (Reads.mono ?_ hm)
  rintro (e | a) hr
  · exact hr
  · exact ⟨hr, fun e he => hF e he⟩

end Rules

/-! ## Runs -/

/-- Nothing is written in any frame of the session. -/
structure Unwritten (x : Session S L V) : Prop where
  pend : x.pend = id
  frames : ∀ f ∈ x.frames, f.pend = id

theorem unwritten_idle : Unwritten ({} : Session S L V) := by
  refine ⟨rfl, fun f hf => ?_⟩
  cases hf

/-- A transaction that begins has written nothing. -/
theorem Unwritten.begin {w : World S L V} (h : Unwritten w.sess) : Unwritten w.begin.sess := by
  refine ⟨h.pend, fun f hf => ?_⟩
  rcases List.mem_cons.mp hf with rfl | hf
  · exact h.pend
  · exact h.frames f hf

/-- A rollback leaves nothing written. -/
theorem Unwritten.rollback {w : World S L V} (h : Unwritten w.sess) :
    Unwritten w.rollback.sess := by
  obtain ⟨db, now, frames, pend, held, start, hist⟩ := w
  cases frames with
  | nil => exact h
  | cons f fs =>
      exact ⟨h.frames f List.mem_cons_self, fun g hg => h.frames g (List.mem_cons_of_mem _ hg)⟩

/-- A commit of nothing is accepted, and nothing. -/
theorem Unwritten.commit {deferred : S → S → Option E} (hdef : ∀ s, deferred s s = none)
    {w : World S L V} (h : Unwritten w.sess) :
    (w.commit deferred).1 = .ok () ∧ Unwritten (w.commit deferred).2.sess ∧
      (w.commit deferred).2.db = w.db ∧ (w.commit deferred).2.now = w.now := by
  have hview : w.view = w.db := by rw [World.view, h.pend]; rfl
  obtain ⟨db, now, frames, pend, held, start, hist⟩ := w
  cases frames with
  | nil => exact ⟨rfl, h, rfl, rfl⟩
  | cons f fs =>
      cases fs with
      | nil =>
          simp only [World.commit, hview, hdef]
          refine ⟨trivial, ⟨rfl, fun x hx => ?_⟩, hview, rfl⟩
          cases hx
      | cons g gs =>
          exact ⟨rfl, ⟨h.pend, fun x hx => h.frames x (List.mem_cons_of_mem _ hx)⟩, rfl, rfl⟩

variable {D : Database S L E}

/-- **LOCAL STEP**: one statement keeps a reader one, and the store as it is. -/
theorem reads_localStep (hdef : ∀ s, D.deferred s s = none) (hF : ∀ e, D.fault e → F e)
    {m m' : Prog S L E V α} {w w' : World S L V} {Q : Except E α → Prop}
    (hs : LocalStep D (m, w) (m', w')) (hR : R w.now w.db) (hw : Unwritten w.sess)
    (h : Reads R F m Q) : Reads R F m' Q ∧ Unwritten w'.sess ∧ w'.db = w.db := by
  cases hs with
  | begin => exact ⟨h, hw.begin, rfl⟩
  | commit =>
      obtain ⟨hok, hw', hdb, -⟩ := hw.commit hdef
      rw [hok]
      exact ⟨h.1, hw', hdb⟩
  | commitFault _ _ e he => exact ⟨h.2 e (hF e he), hw.rollback, World.rollback_db w⟩
  | rollback => exact ⟨h, hw.rollback, World.rollback_db w⟩
  | lock => exact ⟨h.1, ⟨hw.pend, hw.frames⟩, rfl⟩
  | lockFault _ _ _ e he => exact ⟨h.2 e (hF e he), hw, rfl⟩
  | query =>
      have hview : w.view = w.db := by rw [World.view, hw.pend]; rfl
      rw [hview]
      exact ⟨h.1 _ _ _ hR, hw, rfl⟩
  | queryFault _ _ e he => exact ⟨h.2 e (hF e he), hw, rfl⟩
  | update => exact False.elim h
  | updateFault => exact False.elim h
  | choose _ _ n => exact ⟨h n, hw, rfl⟩
  | mark => exact ⟨h, ⟨hw.pend, hw.frames⟩, rfl⟩

/-- A reader that has the database to itself sees one moment only. -/
theorem reads_run {deferred : S → S → Option E} (hdef : ∀ s, deferred s s = none)
    {m : Prog S L E V α} {Q : Except E α → Prop} :
    ∀ {w : World S L V} (ids : Nat → Nat), R w.now w.db → Unwritten w.sess → Reads R F m Q →
      Q (m.run deferred ids w).1 ∧ (m.run deferred ids w).2.db = w.db := by
  induction m with
  | ret a => exact fun _ _ _ h => ⟨h, rfl⟩
  | raise e => exact fun _ _ _ h => ⟨h, rfl⟩
  | begin k ih => exact fun ids hR hw h => ih ids hR hw.begin h
  | commit k ih =>
      intro w ids hR hw h
      obtain ⟨hok, hw', hdb, hnow⟩ := hw.commit hdef
      have hk : Reads R F (k (w.commit deferred).1) Q := by
        rw [hok]
        exact h.1
      have hrest := ih _ ids (by rw [hnow, hdb]; exact hR) hw' hk
      exact ⟨hrest.1, hrest.2.trans hdb⟩
  | rollback k ih =>
      intro w ids hR hw h
      have hR' : R w.rollback.now w.rollback.db := by
        rw [World.rollback_now, World.rollback_db]
        exact hR
      obtain ⟨hq, hdb⟩ := ih ids hR' hw.rollback h
      exact ⟨hq, hdb.trans (World.rollback_db w)⟩
  | lock l k ih => exact fun ids hR hw h => ih _ ids hR ⟨hw.pend, hw.frames⟩ h.1
  | query k ih =>
      intro w ids hR hw h
      have hview : w.view = w.db := by rw [World.view, hw.pend]; rfl
      have hk : Reads R F (k (.ok (w.stamp, w.view))) Q := by
        rw [hview]
        exact h.1 _ _ _ hR
      exact ih _ ids hR hw hk
  | update f k ih => exact fun _ _ _ h => False.elim h
  | choose k ih => exact fun ids hR hw h => ih _ _ hR hw (h _)
  | mark v k ih => exact fun ids hR hw h => ih ids hR ⟨hw.pend, hw.frames⟩ h

variable {ι : Type} [DecidableEq ι] {c c' : Config ι S L E V α}

/-- The moments of the runs from `c` to `c'`. -/
def Between (D : Database S L E) (c c' : Config ι S L E V α) (now : Nat) (s : S) : Prop :=
  ∃ d, Reaches D c d ∧ Reaches D d c' ∧ d.now = now ∧ d.db = s

/-- **STEP**: whoever moves, a reader stays one; when it moves itself, the store stays. -/
theorem reads_step (hdef : ∀ s, D.deferred s s = none) (hF : ∀ e, D.fault e → F e) {i : ι}
    {who : Option ι} {Q : Except E α → Prop} (hs : Step D who c c') (hR : R c.now c.db)
    (hw : Unwritten (c.sess i)) (h : Reads R F (c.prog i) Q) :
    Reads R F (c'.prog i) Q ∧ Unwritten (c'.sess i) ∧ (who = some i → c'.db = c.db) := by
  cases hs with
  | tick _ t ht => exact ⟨h, hw, fun _ => rfl⟩
  | env _ s he =>
      refine ⟨h, hw, fun hi => ?_⟩
      cases hi
  | session _ j m w hloc hfree =>
      by_cases hj : j = i
      · subst hj
        obtain ⟨h', hw', hdb⟩ := reads_localStep hdef hF hloc hR hw h
        simp only [Config.put, Function.update_self]
        exact ⟨h', hw', fun _ => hdb⟩
      · have hi : i ≠ j := fun hij => hj hij.symm
        simp only [Config.put, Function.update_of_ne hi]
        exact ⟨h, hw, fun hij => absurd (Option.some.inj hij) hj⟩

/-- A session that reads only goes on reading only, along a run whose moments are of `R`. -/
theorem reads_along (hdef : ∀ s, D.deferred s s = none) (hF : ∀ e, D.fault e → F e) {i : ι}
    {Q : Except E α → Prop} (hr : Reaches D c c')
    (hR : ∀ d, Reaches D c d → Reaches D d c' → R d.now d.db) (hw : Unwritten (c.sess i))
    (h : Reads R F (c.prog i) Q) : Reads R F (c'.prog i) Q ∧ Unwritten (c'.sess i) := by
  induction hr with
  | refl => exact ⟨h, hw⟩
  | @tail b d hb hs ih =>
      obtain ⟨who, hs⟩ := hs
      have hlast : Reaches D b d := (Reaches.refl D b).step hs
      obtain ⟨hb', hwb⟩ := ih fun x hx hx' => hR x hx (hx'.trans hlast)
      obtain ⟨hd', hwd, -⟩ := reads_step hdef hF hs (hR b hb hlast) hwb hb'
      exact ⟨hd', hwd⟩

/-- **SOUNDNESS**: a session that reads only has changed nothing, and what it has ended
    with rests on moments of the run. -/
theorem reads_reached (hdef : ∀ s, D.deferred s s = none) (hF : ∀ e, D.fault e → F e) {i : ι}
    {Q : Except E α → Prop} (hr : Reaches D c c') (hw : Unwritten (c.sess i))
    (h : Reads (Between D c c') F (c.prog i) Q) :
    (∀ d, Step D (some i) c' d → d.db = c'.db) ∧
      ∀ r, c'.prog i = Prog.ofAnswer r → Q r := by
  have hmoment : ∀ d, Reaches D c d → Reaches D d c' → Between D c c' d.now d.db :=
    fun d hd hd' => ⟨d, hd, hd', rfl, rfl⟩
  obtain ⟨h', hw'⟩ := reads_along hdef hF hr hmoment hw h
  constructor
  · intro d hd
    exact (reads_step hdef hF hd (hmoment c' hr (Reaches.refl D c')) hw' h').2.2 rfl
  · intro r hprog
    rw [hprog] at h'
    cases r with
    | ok a => exact h'
    | error e => exact h'

end TxnMoments
