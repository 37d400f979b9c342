import Mathlib.Logic.Function.Basic
import Mathlib.Logic.Relation
import Marketplace.TxnLogic

/-! # Specifications of transaction bodies

    Inside one transaction a program either only looks (`Look`: it reads, waits and
    locks) or also writes (`Body`).  Both judgments have a postcondition for answers
    and a predicate for the errors that may come out; the rules below follow the
    statements of a body one by one, and each hands the facts of its statement to
    the rest. -/

namespace TxnBody

open TxnProgram TxnLogic

variable {S L E V α β : Type}

/-- One postcondition from `P` for answers and `F` for errors. -/
def ends (P : α → World S L V → Prop) (F : E → Prop) :
    Except E α → World S L V → Prop
  | .ok a, w => P a w
  | .error e, _ => F e

/-- `m` only looks: it ends with nothing written. -/
def Look (Γ : Ctx S L E V) (m : Prog S L E V α) (w : World S L V)
    (P : α → World S L V → Prop) (F : E → Prop) : Prop :=
  wp Γ m (fun r w' => Still Γ w w' ∧ ends P F r w') w

/-- `m` runs within the open frame. -/
def Body (Γ : Ctx S L E V) (m : Prog S L E V α) (w : World S L V)
    (P : α → World S L V → Prop) (F : E → Prop) : Prop :=
  wp Γ m (fun r w' => Within Γ w w' ∧ ends P F r w') w

/-- The errors of the database are among those of `F`. -/
def Faults (Γ : Ctx S L E V) (F : E → Prop) : Prop := ∀ e, Γ.fault e → F e

/-- Any error may come out: the caller rolls back whatever it is. -/
def anyError : E → Prop := fun _ => True

/-- Every database error is an error. -/
theorem anyError_faults {Γ : Ctx S L E V} : Faults Γ anyError := fun _ _ => trivial

section Rules

variable {Γ : Ctx S L E V} {w : World S L V} {F : E → Prop}

/-! ## Looking -/

/-- What only looks is a body that writes nothing. -/
theorem Look.body (hΓ : Lawful Γ) {m : Prog S L E V α} {P : α → World S L V → Prop}
    (h : Look Γ m w P F) : Body Γ m w P F :=
  wp_mono (fun _ _ hr => ⟨hr.1.within hΓ, hr.2⟩) h

/-- A look may be told to find less. -/
theorem Look.mono {m : Prog S L E V α} {P P' : α → World S L V → Prop}
    (h : Look Γ m w P F) (hP : ∀ a w', Still Γ w w' → P a w' → P' a w') :
    Look Γ m w P' F := by
  refine wp_mono ?_ h
  rintro (e | a) w' ⟨hs, hr⟩
  · exact ⟨hs, hr⟩
  · exact ⟨hs, hP a w' hs hr⟩

/-- A return looks at nothing. -/
theorem Look.ret (hΓ : Lawful Γ) {a : α} {P : α → World S L V → Prop} (h : P a w) :
    Look Γ (.ret a) w P F := ⟨Still.refl hΓ w, h⟩

/-- An exception looks at nothing. -/
theorem Look.raise (hΓ : Lawful Γ) {e : E} {P : α → World S L V → Prop} (h : F e) :
    Look Γ (.raise e) w P F := ⟨Still.refl hΓ w, h⟩

/-- **SEQUENCING**: looks follow each other in a world that stands still but for the others. -/
theorem Look.bind (hΓ : Lawful Γ) {m : Prog S L E V α} {f : α → Prog S L E V β}
    {P : α → World S L V → Prop} {P' : β → World S L V → Prop}
    (hm : Look Γ m w P F)
    (hf : ∀ a w1, Still Γ w w1 → P a w1 → Look Γ (f a) w1 P' F) :
    Look Γ (m >>= f) w P' F := by
  refine wp_bind (wp_mono ?_ hm)
  rintro (e | a) w1 ⟨hs, hr⟩
  · exact ⟨hs, hr⟩
  · refine wp_mono ?_ (hf a w1 hs hr)
    rintro r w2 ⟨hs', hr'⟩
    exact ⟨hs.trans hΓ hs', hr'⟩

/-- A query sees the view of its own statement. -/
theorem Look.select (hF : Faults Γ F) (q : Stamp → S → α) :
    Look Γ (Prog.select q) w (fun a w' => a = q w'.stamp w'.view) F :=
  wp_select (fun _ hs => ⟨hs, rfl⟩) (fun e _ hfe hs => ⟨hs, hF e hfe⟩)

/-- A lock that is taken is held. -/
theorem Look.acquire (hF : Faults Γ F) (l : L) :
    Look Γ (Prog.acquire l) w (fun _ w' => l ∈ w'.sess.held) F :=
  wp_acquire (fun _ hs hl => ⟨hs, hl⟩) (fun e _ hfe hs => ⟨hs, hF e hfe⟩)

/-- All locks of a list that is taken are held. -/
theorem Look.acquireAll (hΓ : Lawful Γ) (hF : Faults Γ F) (ls : List L) :
    Look Γ (Prog.acquireAll ls) w (fun _ w' => ∀ l ∈ ls, l ∈ w'.sess.held) F :=
  wp_acquireAll hΓ (fun _ hs hl => ⟨hs, hl⟩) (fun e _ hfe hs => ⟨hs, hF e hfe⟩)

/-- A fresh identifier is no look at the store. -/
theorem Look.fresh : Look Γ Prog.fresh w (fun _ _ => True) F :=
  wp_fresh (fun _ _ hs => ⟨hs, trivial⟩)

/-- Past a guard its condition is false. -/
theorem Look.raiseIf (hΓ : Lawful Γ) {c : Bool} {e : E} (h : c = true → F e) :
    Look Γ (Prog.raiseIf c e) w (fun _ _ => c = false) F :=
  wp_raiseIf (fun hc => ⟨Still.refl hΓ w, h hc⟩)
    (fun hc => ⟨Still.refl hΓ w, hc⟩)

/-- An observation is made of a store that is given, and has to be shown. -/
theorem Look.observe {v : V}
    (h : ∀ w', Still Γ w w' → Γ.given v w'.now w'.db → Γ.shown v w'.now w'.db) :
    Look Γ (Prog.observe v) w
      (fun _ w' => ∃ w1, Still Γ w w1 ∧ Γ.given v w1.now w1.db ∧ w' = w1.note v) F :=
  wp_observe fun w1 hs hg => ⟨h w1 hs hg, hs.note v, w1, hs, hg, rfl⟩

/-- Handling an error of a program that only looks. -/
theorem Look.tryCatch (hΓ : Lawful Γ) {m : Prog S L E V α} {f : E → Prog S L E V α}
    {P : α → World S L V → Prop} {G : E → Prop} (hm : Look Γ m w P G)
    (hf : ∀ e w1, Still Γ w w1 → G e → Look Γ (f e) w1 P F) :
    Look Γ (m.tryCatch f) w P F := by
  refine wp_tryCatch (wp_mono ?_ hm)
  rintro (e | a) w1 ⟨hs, hr⟩
  · refine wp_mono ?_ (hf e w1 hs hr)
    rintro r w2 ⟨hs', hr'⟩
    exact ⟨hs.trans hΓ hs', hr'⟩
  · exact ⟨hs, hr⟩

/-! ## Writing -/

/-- A body may be told to do less. -/
theorem Body.mono {m : Prog S L E V α} {P P' : α → World S L V → Prop}
    (h : Body Γ m w P F) (hP : ∀ a w', Within Γ w w' → P a w' → P' a w') :
    Body Γ m w P' F := by
  refine wp_mono ?_ h
  rintro (e | a) w' ⟨hs, hr⟩
  · exact ⟨hs, hr⟩
  · exact ⟨hs, hP a w' hs hr⟩

/-- A return leaves the world as it is. -/
theorem Body.ret (hΓ : Lawful Γ) {a : α} {P : α → World S L V → Prop} (h : P a w) :
    Body Γ (.ret a) w P F := (Look.ret hΓ h).body hΓ

/-- An exception ends the body where it stands. -/
theorem Body.raise (hΓ : Lawful Γ) {e : E} {P : α → World S L V → Prop} (h : F e) :
    Body Γ (.raise e) w P F := (Look.raise hΓ h).body hΓ

/-- **SEQUENCING**: bodies follow each other within one transaction. -/
theorem Body.bind (hΓ : Lawful Γ) {m : Prog S L E V α} {f : α → Prog S L E V β}
    {P : α → World S L V → Prop} {P' : β → World S L V → Prop}
    (hm : Body Γ m w P F)
    (hf : ∀ a w1, Within Γ w w1 → P a w1 → Body Γ (f a) w1 P' F) :
    Body Γ (m >>= f) w P' F := by
  refine wp_bind (wp_mono ?_ hm)
  rintro (e | a) w1 ⟨hs, hr⟩
  · exact ⟨hs, hr⟩
  · refine wp_mono ?_ (hf a w1 hs hr)
    rintro r w2 ⟨hs', hr'⟩
    exact ⟨hs.trans hΓ hs', hr'⟩

/-- A statement that only looks, and the rest of the body. -/
theorem Body.look (hΓ : Lawful Γ) {m : Prog S L E V α} {f : α → Prog S L E V β}
    {P : α → World S L V → Prop} {P' : β → World S L V → Prop}
    (hm : Look Γ m w P F)
    (hf : ∀ a w1, Still Γ w w1 → P a w1 → Body Γ (f a) w1 P' F) :
    Body Γ (m >>= f) w P' F := by
  refine wp_bind (wp_mono ?_ hm)
  rintro (e | a) w1 ⟨hs, hr⟩
  · exact ⟨hs.within hΓ, hr⟩
  · refine wp_mono ?_ (hf a w1 hs hr)
    rintro r w2 ⟨hs', hr'⟩
    exact ⟨(hs.within hΓ).trans hΓ hs', hr'⟩

/-- A write joins the pending ones; the store sees it at the commit. -/
theorem Body.write (hΓ : Lawful Γ) (hF : Faults Γ F) {f : S → S}
    (hf : ∀ s, Γ.leave w.sess.held s (f s)) :
    Body Γ (Prog.write f) w
      (fun _ w' => w'.sess.pend = fun s => f (w.sess.pend s)) F := by
  refine wp_write (fun w' hs => ⟨hs.write hΓ hf, ?_⟩)
    (fun e w' hfe hs => ⟨hs.within hΓ, hF e hfe⟩)
  show (fun s => f (w'.sess.pend s)) = _
  rw [hs.pend]

/-- Handling an error of a body whose writes so far do not matter. -/
theorem Body.tryCatch (hΓ : Lawful Γ) {m : Prog S L E V α} {f : E → Prog S L E V α}
    {P : α → World S L V → Prop} {G : E → Prop} (hm : Body Γ m w P G)
    (hf : ∀ e w1, Within Γ w w1 → G e → Body Γ (f e) w1 P F) :
    Body Γ (m.tryCatch f) w P F := by
  refine wp_tryCatch (wp_mono ?_ hm)
  rintro (e | a) w1 ⟨hs, hr⟩
  · refine wp_mono ?_ (hf e w1 hs hr)
    rintro r w2 ⟨hs', hr'⟩
    exact ⟨hs.trans hΓ hs', hr'⟩
  · exact ⟨hs, hr⟩

/-! ## Savepoints -/

/-- Rolling back to a savepoint undoes what the body of it wrote. -/
theorem still_rollback (hΓ : Lawful Γ) {w w' w1 w2 : World S L V} (he : Env Γ w w')
    (hw : Within Γ w'.begin w1) (he2 : Env Γ w1 w2) (hopen : w.sess.frames ≠ []) :
    Still Γ w w2.rollback := by
  have hframes : w2.sess.frames = ⟨w.sess.pend, w.sess.held⟩ :: w.sess.frames := by
    rw [he2.sess, hw.frames, World.begin_frames, he.sess]
  have hroll : w2.rollback = { w2 with sess := { w2.sess with
      frames := w.sess.frames, pend := w.sess.pend, held := w.sess.held } } := by
    rw [World.rollback, hframes]
  have hstart : w'.begin.sess.start = w.sess.start := by
    show (if w'.sess.frames.isEmpty then w'.now else w'.sess.start) = _
    rw [he.sess]
    cases hf : w.sess.frames with
    | nil => exact absurd hf hopen
    | cons f fs => rfl
  have hheld : w.sess.held ⊆ w1.sess.held := by
    have h := hw.held
    rw [World.begin_held, he.sess] at h
    exact h
  rw [hroll]
  refine ⟨⟨rfl, ?_, fun _ h => h, ?_, ?_, ?_⟩, rfl⟩
  · show w2.sess.start = _
    rw [he2.sess, hw.start, hstart]
  · exact Nat.le_trans he.now (Nat.le_trans hw.now he2.now)
  · refine hΓ.trans _ _ _ _ he.db ?_
    refine hΓ.trans _ _ _ _ ?_ (hΓ.anti _ _ _ _ hheld he2.db)
    have h := hw.db
    rw [World.begin_held, he.sess] at h
    exact h
  · show commitsOf w2.sess.hist = _
    rw [he2.sess, hw.commits, World.begin_hist, he.sess]

/-- Releasing a savepoint keeps what its body did. -/
theorem within_release (hΓ : Lawful Γ) {w w' w1 w2 : World S L V} (he : Env Γ w w')
    (hw : Within Γ w'.begin w1) (he2 : Env Γ w1 w2) (hopen : w.sess.frames ≠ []) :
    Within Γ w w2.release := by
  have hleave : ∀ s, Γ.leave w2.sess.held (w.sess.pend s) (w2.sess.pend s) := by
    intro s
    have h := hw.leave s
    rw [World.begin_pend, he.sess] at h
    rw [he2.sess]
    exact h
  have hframes : w2.sess.frames = ⟨w.sess.pend, w.sess.held⟩ :: w.sess.frames := by
    rw [he2.sess, hw.frames, World.begin_frames, he.sess]
  have hs := (still_rollback hΓ he hw he2 hopen).toNear
  have hheld : w.sess.held ⊆ w1.sess.held := by
    have h := hw.held
    rw [World.begin_held, he.sess] at h
    exact h
  refine ⟨⟨?_, ?_, ?_, ?_, ?_, ?_⟩, hleave⟩
  · show w2.sess.frames.tail = _
    rw [hframes]
    rfl
  · have h := hs.start
    rw [← h]
    show w2.sess.start = w2.rollback.sess.start
    unfold World.rollback
    cases w2.sess.frames <;> rfl
  · show w.sess.held ⊆ w2.sess.held
    rw [he2.sess]
    exact hheld
  · exact Nat.le_trans he.now (Nat.le_trans hw.now he2.now)
  · have h := hs.db
    rw [World.rollback_db] at h
    exact h
  · have h := hs.commits
    rw [World.rollback_hist] at h
    exact h

/-- The end of a savepoint, whichever way its body ended. -/
theorem wp_savepoint (hΓ : Lawful Γ) {m : Prog S L E V α}
    {Q : Except E α → World S L V → Prop}
    {P : World S L V → α → World S L V → Prop} {G : E → Prop}
    (hopen : w.sess.frames ≠ [])
    (hm : ∀ w', Env Γ w w' → Body Γ m w'.begin (P w') G)
    (hfault : Faults Γ G)
    (herr : ∀ e w3, G e → Still Γ w w3 → Q (.error e) w3)
    (hok : ∀ w' a w1 w2, Env Γ w w' → Within Γ w'.begin w1 → P w' a w1 →
      Env Γ w1 w2 → Within Γ w w2.release → Q (.ok a) w2.release) :
    wp Γ (Prog.atomic m) Q w := by
  refine wp_atomic (fun w' he => wp_mono ?_ (hm w' he))
  rintro (e | a) w1 ⟨hw, hr⟩ w2 he2
  · exact herr e _ hr (still_rollback hΓ he hw he2 hopen)
  · obtain ⟨f, fs, hfs⟩ := List.exists_cons_of_ne_nil hopen
    have hf : w2.sess.frames = ⟨w.sess.pend, w.sess.held⟩ :: f :: fs := by
      rw [he2.sess, hw.frames, World.begin_frames, he.sess, hfs]
    refine ⟨?_, ?_, fun e hfe =>
      herr e _ (hfault e hfe) (still_rollback hΓ he hw he2 hopen)⟩
    · intro g hg
      rw [hf] at hg
      exact nomatch hg
    · rw [commit_nested hf]
      exact hok w' a w1 w2 he hw hr he2 (within_release hΓ he hw he2 hopen)

/-- **SAVEPOINT**: what the body of a nested `atomic` wrote is kept. -/
theorem Body.atomic (hΓ : Lawful Γ) (hF : Faults Γ F) {m : Prog S L E V α}
    {P : World S L V → α → World S L V → Prop} (hopen : w.sess.frames ≠ [])
    (hm : ∀ w', Env Γ w w' → Body Γ m w'.begin (P w') F) :
    Body Γ (Prog.atomic m) w
      (fun a w3 => ∃ w' w1 w2, Env Γ w w' ∧ Within Γ w'.begin w1 ∧ P w' a w1 ∧
        Env Γ w1 w2 ∧ w3 = w2.release) F :=
  wp_savepoint hΓ hopen hm hF (fun _ _ he hs => ⟨hs.within hΓ, he⟩)
    (fun w' _ w1 w2 he hw hp he2 hwr => ⟨hwr, w', w1, w2, he, hw, hp, he2, rfl⟩)

/-- **SAVEPOINT, HANDLED**: after an error the handler finds nothing written. -/
theorem Body.catchAtomic (hΓ : Lawful Γ) {m : Prog S L E V α}
    {f : E → Prog S L E V α} {P : World S L V → α → World S L V → Prop}
    {P' : α → World S L V → Prop} {G : E → Prop} (hopen : w.sess.frames ≠ [])
    (hfault : Faults Γ G)
    (hm : ∀ w', Env Γ w w' → Body Γ m w'.begin (P w') G)
    (hok : ∀ w' a w1 w2, Env Γ w w' → Within Γ w'.begin w1 → P w' a w1 →
      Env Γ w1 w2 → P' a w2.release)
    (herr : ∀ e w1, Still Γ w w1 → G e → Body Γ (f e) w1 P' F) :
    Body Γ ((Prog.atomic m).tryCatch f) w P' F := by
  refine wp_tryCatch (wp_savepoint hΓ hopen hm hfault ?_ ?_)
  · intro e w3 he hs
    refine wp_mono ?_ (herr e w3 hs he)
    rintro r w4 ⟨hw, hr⟩
    exact ⟨(hs.within hΓ).trans hΓ hw, hr⟩
  · intro w' a w1 w2 he hw hp he2 hwr
    exact ⟨hwr, hok w' a w1 w2 he hw hp he2⟩

/-! ## Whole transactions -/

/-- **TRANSACTION OF A BODY**: what the body leaves has to be a guaranteed commit. -/
theorem wp_transaction (hΓ : Lawful Γ) {m : Prog S L E V α}
    {Q : Except E α → World S L V → Prop}
    {P : World S L V → α → World S L V → Prop} (hi : Idle w)
    (hm : ∀ w', Env Γ w w' → Body Γ m w'.begin (P w') F)
    (hfault : Faults Γ F)
    (herr : ∀ e w3, F e → Idle w3 → commitsOf w3.sess.hist = commitsOf w.sess.hist →
      Γ.rely [] w.db w3.db → Q (.error e) w3)
    (hok : ∀ w' a w1 w2, Env Γ w w' → Within Γ w'.begin w1 → P w' a w1 →
      Env Γ w1 w2 → Γ.leave w2.sess.held w2.db w2.view →
      (Γ.deferred w2.db w2.view = none →
        Γ.guar w2.sess.held w2.db w2.view ∧ Q (.ok a) w2.publish) ∧
      ∀ e, Γ.deferred w2.db w2.view = some e → F e) :
    wp Γ (Prog.atomic m) Q w := by
  have hleave : ∀ w' w1 w2, Env Γ w w' → Within Γ w'.begin w1 → Env Γ w1 w2 →
      Γ.leave w2.sess.held w2.db w2.view := by
    intro w' w1 w2 he hw he2
    have h := hw.leave w2.db
    rw [World.begin_pend, he.sess, hi.pend] at h
    rw [show w2.view = w2.sess.pend w2.db from rfl, he2.sess]
    exact h
  have back : ∀ w' w1 w2, Env Γ w w' → Within Γ w'.begin w1 → Env Γ w1 w2 →
      Idle w2.rollback ∧ commitsOf w2.rollback.sess.hist = commitsOf w.sess.hist ∧
      Γ.rely [] w.db w2.rollback.db := by
    intro w' w1 w2 he hw he2
    refine ⟨rollback_idle ?_, ?_, ?_⟩
    · rw [he2.sess, hw.frames, (hi.env he).begin_frames]
    · rw [World.rollback_hist, he2.sess, hw.commits, World.begin_hist, he.sess]
    · have hrely : ∀ held s s', Γ.rely held s s' → Γ.rely [] s s' :=
        fun held s s' => hΓ.anti _ _ _ _ fun _ h => nomatch h
      rw [World.rollback_db]
      exact hΓ.trans _ _ _ _ (hrely _ _ _ he.db)
        (hΓ.trans _ _ _ _ (hrely _ _ _ hw.db) (hrely _ _ _ he2.db))
  refine wp_atomic_top (P := fun w' => ends (P w') F) hi hm ?_ ?_ ?_ ?_
  · intro w' e w1 w2 he hw hp he2
    obtain ⟨h1, h2, h3⟩ := back w' w1 w2 he hw he2
    exact herr e _ hp h1 h2 h3
  · intro w' a w1 w2 he hw hp he2
    exact (hok w' a w1 w2 he hw hp he2 (hleave w' w1 w2 he hw he2)).1
  · intro w' a e w1 w2 he hw hp he2 hd
    obtain ⟨h1, h2, h3⟩ := back w' w1 w2 he hw he2
    have hl := hleave w' w1 w2 he hw he2
    exact herr e _ ((hok w' a w1 w2 he hw hp he2 hl).2 e hd) h1 h2 h3
  · intro w' a e w1 w2 he hw hp he2 hfe
    obtain ⟨h1, h2, h3⟩ := back w' w1 w2 he hw he2
    exact herr e _ (hfault e hfe) h1 h2 h3

end Rules

end TxnBody
