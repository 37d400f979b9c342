import Mathlib.Data.List.Infix
import Mathlib.Logic.Function.Basic
import Mathlib.Logic.Relation
import Marketplace.TxnInterleaving

/-! # Rely-guarantee rules for transaction programs

    `wp Γ m Q w`: whatever the other sessions do within `Γ.rely`, a session that
    runs `m` from `w` ends in an answer and a world of `Q`, and every transaction
    it commits on the way is in `Γ.guar`.  What the others may do depends on the
    locks the session holds: the more it holds, the less can change.

    This file has the rules for programs; that they hold in every interleaving is
    `TxnSoundness`. -/

namespace TxnLogic

open TxnProgram TxnInterleaving

/-- Assumptions and promises of a proof: what others may change while the locks of
    the list are held, what a write and what a commit under these locks may change,
    and what is given and shown of the ghost observations. -/
structure Ctx (S L E V : Type) where
  deferred : S → S → Option E
  fault : E → Prop
  rely : List L → S → S → Prop
  leave : List L → S → S → Prop := fun _ _ _ => True
  guar : List L → S → S → Prop
  given : V → Nat → S → Prop := fun _ _ _ => True
  shown : V → Nat → S → Prop := fun _ _ _ => True

/-- Interference is reflexive, transitive, and weaker under more locks; so is
    writing, which under more locks may do more. -/
structure Lawful {S L E V : Type} (Γ : Ctx S L E V) : Prop where
  refl : ∀ held s, Γ.rely held s s
  trans : ∀ held s s' s'', Γ.rely held s s' → Γ.rely held s' s'' → Γ.rely held s s''
  anti : ∀ held held' s s', held ⊆ held' → Γ.rely held' s s' → Γ.rely held s s'
  leave_refl : ∀ held s, Γ.leave held s s
  leave_trans : ∀ held s s' s'',
    Γ.leave held s s' → Γ.leave held s' s'' → Γ.leave held s s''
  leave_mono : ∀ held held' s s', held ⊆ held' → Γ.leave held s s' → Γ.leave held' s s'

/-- What others do between two statements of a session. -/
structure Env {S L E V : Type} (Γ : Ctx S L E V) (w w' : World S L V) : Prop where
  sess : w'.sess = w.sess
  now : w.now ≤ w'.now
  db : Γ.rely w.sess.held w.db w'.db

/-- The committed transitions of a history, newest first. -/
def commitsOf {S V : Type} : List (Event S V) → List (S × S)
  | [] => []
  | .committed s s' :: h => (s, s') :: commitsOf h
  | .marked _ _ _ :: h => commitsOf h

/-- From `w` to `w'` inside one transaction frame. -/
structure Near {S L E V : Type} (Γ : Ctx S L E V) (w w' : World S L V) : Prop where
  frames : w'.sess.frames = w.sess.frames
  start : w'.sess.start = w.sess.start
  held : w.sess.held ⊆ w'.sess.held
  now : w.now ≤ w'.now
  db : Γ.rely w.sess.held w.db w'.db
  commits : commitsOf w'.sess.hist = commitsOf w.sess.hist

/-- `Near`, and only allowed writes. -/
structure Within {S L E V : Type} (Γ : Ctx S L E V) (w w' : World S L V) : Prop
    extends Near Γ w w' where
  leave : ∀ s, Γ.leave w'.sess.held (w.sess.pend s) (w'.sess.pend s)

/-- `Near`, and nothing written. -/
structure Still {S L E V : Type} (Γ : Ctx S L E V) (w w' : World S L V) : Prop
    extends Near Γ w w' where
  pend : w'.sess.pend = w.sess.pend

variable {S L E V α β : Type}

/-- Weakest precondition of a program under interference. -/
def wp (Γ : Ctx S L E V) :
    Prog S L E V α → (Except E α → World S L V → Prop) → World S L V → Prop
  | .ret a, Q, w => Q (.ok a) w
  | .raise e, Q, w => Q (.error e) w
  | .begin k, Q, w => ∀ w', Env Γ w w' → wp Γ k Q w'.begin
  | .commit k, Q, w => ∀ w', Env Γ w w' →
      (∀ f, w'.sess.frames = [f] → Γ.deferred w'.db w'.view = none →
        Γ.guar w'.sess.held w'.db w'.view) ∧
      wp Γ (k (w'.commit Γ.deferred).1) Q (w'.commit Γ.deferred).2 ∧
      ∀ e, Γ.fault e → wp Γ (k (.error e)) Q w'.rollback
  | .rollback k, Q, w => ∀ w', Env Γ w w' → wp Γ k Q w'.rollback
  | .lock l k, Q, w => ∀ w', Env Γ w w' →
      wp Γ (k (.ok ())) Q (w'.hold l) ∧ ∀ e, Γ.fault e → wp Γ (k (.error e)) Q w'
  | .query k, Q, w => ∀ w', Env Γ w w' →
      wp Γ (k (.ok (w'.stamp, w'.view))) Q w' ∧
      ∀ e, Γ.fault e → wp Γ (k (.error e)) Q w'
  | .update f k, Q, w => ∀ w', Env Γ w w' →
      wp Γ (k (.ok ())) Q (w'.write f) ∧ ∀ e, Γ.fault e → wp Γ (k (.error e)) Q w'
  | .choose k, Q, w => ∀ w', Env Γ w w' → ∀ n, wp Γ (k n) Q w'
  | .mark v k, Q, w => ∀ w', Env Γ w w' → Γ.given v w'.now w'.db →
      Γ.shown v w'.now w'.db ∧ wp Γ k Q (w'.note v)

/-! ## Interference -/

section Interference

variable {Γ : Ctx S L E V} {w w' w'' : World S L V}

theorem Env.refl (hΓ : Lawful Γ) (w : World S L V) : Env Γ w w :=
  ⟨rfl, Nat.le_refl _, hΓ.refl _ _⟩

/-- Others move, and move again. -/
theorem Env.trans (hΓ : Lawful Γ) (h : Env Γ w w') (h' : Env Γ w' w'') :
    Env Γ w w'' := by
  refine ⟨h'.sess.trans h.sess, Nat.le_trans h.now h'.now, ?_⟩
  have hdb := h'.db
  rw [h.sess] at hdb
  exact hΓ.trans _ _ _ _ h.db hdb

/-- While others move, the session stays. -/
theorem Env.still (h : Env Γ w w') : Still Γ w w' where
  frames := by rw [h.sess]
  start := by rw [h.sess]
  held := by rw [h.sess]; exact fun _ hx => hx
  now := h.now
  db := h.db
  commits := by rw [h.sess]
  pend := by rw [h.sess]

theorem Near.refl (hΓ : Lawful Γ) (w : World S L V) : Near Γ w w :=
  ⟨rfl, rfl, fun _ hx => hx, Nat.le_refl _, hΓ.refl _ _, rfl⟩

/-- Two steps near to each other. -/
theorem Near.trans (hΓ : Lawful Γ) (h : Near Γ w w') (h' : Near Γ w' w'') :
    Near Γ w w'' where
  frames := h'.frames.trans h.frames
  start := h'.start.trans h.start
  held := fun _ hl => h'.held (h.held hl)
  now := Nat.le_trans h.now h'.now
  db := hΓ.trans _ _ _ _ h.db (hΓ.anti _ _ _ _ h.held h'.db)
  commits := h'.commits.trans h.commits

theorem Within.refl (hΓ : Lawful Γ) (w : World S L V) : Within Γ w w :=
  ⟨Near.refl hΓ w, fun _ => hΓ.leave_refl _ _⟩

/-- Two parts of one transaction. -/
theorem Within.trans (hΓ : Lawful Γ) (h : Within Γ w w') (h' : Within Γ w' w'') :
    Within Γ w w'' where
  toNear := h.toNear.trans hΓ h'.toNear
  leave s := hΓ.leave_trans _ _ _ _
    (hΓ.leave_mono _ _ _ _ h'.held (h.leave s)) (h'.leave s)

theorem Still.refl (hΓ : Lawful Γ) (w : World S L V) : Still Γ w w :=
  ⟨Near.refl hΓ w, rfl⟩

/-- Two parts that only read. -/
theorem Still.trans (hΓ : Lawful Γ) (h : Still Γ w w') (h' : Still Γ w' w'') :
    Still Γ w w'' :=
  ⟨Near.trans hΓ h.toNear h'.toNear, h'.pend.trans h.pend⟩

/-- To read only is to stay within the transaction. -/
theorem Still.within (hΓ : Lawful Γ) (h : Still Γ w w') : Within Γ w w' where
  toNear := h.toNear
  leave s := by
    rw [h.pend]
    exact hΓ.leave_refl _ _

/-- To lock is to read only. -/
theorem Still.hold (h : Still Γ w w') (l : L) :
    Still Γ w (w'.hold l) where
  frames := h.frames
  start := h.start
  held := fun _ hx => List.mem_cons_of_mem _ (h.held hx)
  now := h.now
  db := h.db
  commits := h.commits
  pend := h.pend

/-- A write that the context lets be leaves the transaction. -/
theorem Still.write (hΓ : Lawful Γ) (h : Still Γ w w') {f : S → S}
    (hf : ∀ s, Γ.leave w.sess.held s (f s)) : Within Γ w (w'.write f) where
  frames := h.frames
  start := h.start
  held := h.held
  now := h.now
  db := h.db
  commits := h.commits
  leave s := by
    rw [World.write_pend, h.pend]
    exact hΓ.leave_mono _ _ _ _ h.held (hf _)

/-- To observe is to read only. -/
theorem Still.note (h : Still Γ w w') (v : V) : Still Γ w (w'.note v) where
  frames := h.frames
  start := h.start
  held := h.held
  now := h.now
  db := h.db
  commits := h.commits
  pend := h.pend

/-- What is seen is what was pending, over what is committed now. -/
theorem Still.view (h : Still Γ w w') : w'.view = w.sess.pend w'.db := by
  show w'.sess.pend w'.db = _
  rw [h.pend]

end Interference

/-! ## Rules for programs -/

section Rules

variable {Γ : Ctx S L E V}

/-- Continue with `f` on an answer, stop on an error. -/
def onOk (Q : Except E β → World S L V → Prop) (f : α → World S L V → Prop) :
    Except E α → World S L V → Prop
  | .ok a, w => f a w
  | .error e, w => Q (.error e) w

/-- What is asked of an answer. -/
@[simp] theorem onOk_ok (Q : Except E β → World S L V → Prop)
    (f : α → World S L V → Prop) (a : α) (w : World S L V) :
    onOk Q f (.ok a) w ↔ f a w := Iff.rfl

/-- What is asked of an error. -/
@[simp] theorem onOk_error (Q : Except E β → World S L V → Prop)
    (f : α → World S L V → Prop) (e : E) (w : World S L V) :
    onOk Q f (.error e) w ↔ Q (.error e) w := Iff.rfl

/-- **CONSEQUENCE**. -/
theorem wp_mono {Q Q' : Except E α → World S L V → Prop}
    (hQ : ∀ r w, Q r w → Q' r w) {m : Prog S L E V α} :
    ∀ {w : World S L V}, wp Γ m Q w → wp Γ m Q' w := by
  induction m with
  | ret a => exact fun h => hQ _ _ h
  | raise e => exact fun h => hQ _ _ h
  | begin k ih => exact fun h w' he => ih (h w' he)
  | commit k ih =>
      intro w h w' he
      obtain ⟨hg, hk, hf⟩ := h w' he
      exact ⟨hg, ih _ hk, fun e hfe => ih _ (hf e hfe)⟩
  | rollback k ih => exact fun h w' he => ih (h w' he)
  | lock l k ih =>
      intro w h w' he
      exact ⟨ih _ (h w' he).1, fun e hfe => ih _ ((h w' he).2 e hfe)⟩
  | query k ih =>
      intro w h w' he
      exact ⟨ih _ (h w' he).1, fun e hfe => ih _ ((h w' he).2 e hfe)⟩
  | update f k ih =>
      intro w h w' he
      exact ⟨ih _ (h w' he).1, fun e hfe => ih _ ((h w' he).2 e hfe)⟩
  | choose k ih => exact fun h w' he n => ih n (h w' he n)
  | mark v k ih =>
      intro w h w' he hv
      exact ⟨(h w' he hv).1, ih (h w' he hv).2⟩

/-- A program and what follows it. -/
theorem wp_andThen {Q : Except E β → World S L V → Prop} {m : Prog S L E V α}
    {f : Except E α → Prog S L E V β} :
    ∀ {w : World S L V}, wp Γ m (fun r w' => wp Γ (f r) Q w') w →
      wp Γ (m.andThen f) Q w := by
  induction m with
  | ret a => exact fun h => h
  | raise e => exact fun h => h
  | begin k ih => exact fun h w' he => ih (h w' he)
  | commit k ih =>
      intro w h w' he
      obtain ⟨hg, hk, hf⟩ := h w' he
      exact ⟨hg, ih _ hk, fun e hfe => ih _ (hf e hfe)⟩
  | rollback k ih => exact fun h w' he => ih (h w' he)
  | lock l k ih =>
      intro w h w' he
      exact ⟨ih _ (h w' he).1, fun e hfe => ih _ ((h w' he).2 e hfe)⟩
  | query k ih =>
      intro w h w' he
      exact ⟨ih _ (h w' he).1, fun e hfe => ih _ ((h w' he).2 e hfe)⟩
  | update g k ih =>
      intro w h w' he
      exact ⟨ih _ (h w' he).1, fun e hfe => ih _ ((h w' he).2 e hfe)⟩
  | choose k ih => exact fun h w' he n => ih n (h w' he n)
  | mark v k ih =>
      intro w h w' he hv
      exact ⟨(h w' he hv).1, ih (h w' he hv).2⟩

/-- **SEQUENCING**. -/
theorem wp_bind {Q : Except E β → World S L V → Prop} {m : Prog S L E V α}
    {f : α → Prog S L E V β} {w : World S L V}
    (h : wp Γ m (onOk Q fun a w' => wp Γ (f a) Q w') w) : wp Γ (m >>= f) Q w := by
  refine wp_andThen (wp_mono ?_ h)
  intro r w' hr
  cases r with
  | ok a => exact hr
  | error e => exact hr

/-- Keep an answer, run the handler's precondition on an error. -/
def onError (Q : Except E α → World S L V → Prop) (f : E → World S L V → Prop) :
    Except E α → World S L V → Prop
  | .ok a, w => Q (.ok a) w
  | .error e, w => f e w

/-- **HANDLING**. -/
theorem wp_tryCatch {Q : Except E α → World S L V → Prop} {m : Prog S L E V α}
    {f : E → Prog S L E V α} {w : World S L V}
    (h : wp Γ m (onError Q fun e w' => wp Γ (f e) Q w') w) :
    wp Γ (m.tryCatch f) Q w := by
  refine wp_andThen (wp_mono ?_ h)
  intro r w' hr
  cases r with
  | ok a => exact hr
  | error e => exact hr

/-- **QUERY**, or a fault of the database. -/
theorem wp_select {Q : Except E α → World S L V → Prop} {q : Stamp → S → α}
    {w : World S L V}
    (h : ∀ w', Still Γ w w' → Q (.ok (q w'.stamp w'.view)) w')
    (hf : ∀ e w', Γ.fault e → Still Γ w w' → Q (.error e) w') :
    wp Γ (Prog.select q) Q w :=
  fun w' he => ⟨h w' he.still, fun e hfe => hf e w' hfe he.still⟩

/-- **LOCK**. -/
theorem wp_acquire {Q : Except E Unit → World S L V → Prop} {l : L}
    {w : World S L V}
    (h : ∀ w', Still Γ w w' → l ∈ w'.sess.held → Q (.ok ()) w')
    (hf : ∀ e w', Γ.fault e → Still Γ w w' → Q (.error e) w') :
    wp Γ (Prog.acquire l) Q w :=
  fun w' he => ⟨h _ (he.still.hold l) List.mem_cons_self,
    fun e hfe => hf e w' hfe he.still⟩

/-- **LOCKS**, in their order. -/
theorem wp_acquireAll (hΓ : Lawful Γ) {Q : Except E Unit → World S L V → Prop}
    {ls : List L} :
    ∀ {w : World S L V},
      (∀ w', Still Γ w w' → (∀ l ∈ ls, l ∈ w'.sess.held) → Q (.ok ()) w') →
      (∀ e w', Γ.fault e → Still Γ w w' → Q (.error e) w') →
      wp Γ (Prog.acquireAll ls) Q w := by
  induction ls with
  | nil =>
      intro w h _
      exact h w (Still.refl hΓ w) (fun _ hl => nomatch hl)
  | cons l ls ih =>
      intro w h hf w' he
      have hs : Still Γ w (w'.hold l) := he.still.hold l
      refine ⟨ih ?_ ?_, fun e hfe => hf e w' hfe he.still⟩
      · intro w'' hs' hls
        refine h w'' (hs.trans hΓ hs') ?_
        intro x hx
        rcases List.mem_cons.mp hx with rfl | hx
        · exact hs'.held List.mem_cons_self
        · exact hls x hx
      · exact fun e w'' hfe hs' => hf e w'' hfe (hs.trans hΓ hs')

/-- **WRITE**, which stays pending. -/
theorem wp_write {Q : Except E Unit → World S L V → Prop} {f : S → S}
    {w : World S L V}
    (h : ∀ w', Still Γ w w' → Q (.ok ()) (w'.write f))
    (hf : ∀ e w', Γ.fault e → Still Γ w w' → Q (.error e) w') :
    wp Γ (Prog.write f) Q w :=
  fun w' he => ⟨h w' he.still, fun e hfe => hf e w' hfe he.still⟩

/-- **FRESH** number, any one. -/
theorem wp_fresh {Q : Except E Nat → World S L V → Prop} {w : World S L V}
    (h : ∀ n w', Still Γ w w' → Q (.ok n) w') : wp Γ Prog.fresh Q w :=
  fun w' he n => h n w' he.still

/-- **OBSERVATION**, of what the context shows. -/
theorem wp_observe {Q : Except E Unit → World S L V → Prop} {v : V}
    {w : World S L V}
    (h : ∀ w', Still Γ w w' → Γ.given v w'.now w'.db →
      Γ.shown v w'.now w'.db ∧ Q (.ok ()) (w'.note v)) :
    wp Γ (Prog.observe v) Q w :=
  fun w' he hv => h w' he.still hv

/-- **CHECK**. -/
theorem wp_raiseIf {Q : Except E Unit → World S L V → Prop} {c : Bool} {e : E}
    {w : World S L V} (ht : c = true → Q (.error e) w) (hf : c = false → Q (.ok ()) w) :
    wp Γ (Prog.raiseIf c e) Q w := by
  cases c with
  | true => exact ht rfl
  | false => exact hf rfl

/-- What `atomic` does with the result of its body. -/
def atEnd (Γ : Ctx S L E V) (Q : Except E α → World S L V → Prop) :
    Except E α → World S L V → Prop
  | .error e, w => ∀ w', Env Γ w w' → Q (.error e) w'.rollback
  | .ok a, w => ∀ w', Env Γ w w' →
      (∀ f, w'.sess.frames = [f] → Γ.deferred w'.db w'.view = none →
        Γ.guar w'.sess.held w'.db w'.view) ∧
      (onOk Q (fun _ w'' => Q (.ok a) w'') (w'.commit Γ.deferred).1
        (w'.commit Γ.deferred).2) ∧
      ∀ e, Γ.fault e → Q (.error e) w'.rollback

/-- **TRANSACTION**: the body runs in a new frame; an error goes back to the frame,
    an answer goes on to the commit. -/
theorem wp_atomic {Q : Except E α → World S L V → Prop} {m : Prog S L E V α}
    {w : World S L V} (h : ∀ w', Env Γ w w' → wp Γ m (atEnd Γ Q) w'.begin) :
    wp Γ (Prog.atomic m) Q w := by
  intro w' he
  refine wp_andThen (wp_mono ?_ (h w' he))
  intro r w1 hr
  cases r with
  | error e => exact hr
  | ok a =>
      intro w2 he2
      obtain ⟨hg, hc, hf⟩ := hr w2 he2
      refine ⟨hg, ?_, hf⟩
      cases hr1 : (w2.commit Γ.deferred).1 with
      | ok u => rw [hr1] at hc; exact hc
      | error e => rw [hr1] at hc; exact hc

/-- What a program does before what follows it. -/
theorem wp_of_andThen {Q : Except E β → World S L V → Prop} {m : Prog S L E V α}
    {f : Except E α → Prog S L E V β} :
    ∀ {w : World S L V}, wp Γ (m.andThen f) Q w →
      wp Γ m (fun r w' => wp Γ (f r) Q w') w := by
  induction m with
  | ret a => exact fun h => h
  | raise e => exact fun h => h
  | begin k ih => exact fun h w' he => ih (h w' he)
  | commit k ih =>
      intro w h w' he
      obtain ⟨hg, hk, hf⟩ := h w' he
      exact ⟨hg, ih _ hk, fun e hfe => ih _ (hf e hfe)⟩
  | rollback k ih => exact fun h w' he => ih (h w' he)
  | lock l k ih =>
      intro w h w' he
      exact ⟨ih _ (h w' he).1, fun e hfe => ih _ ((h w' he).2 e hfe)⟩
  | query k ih =>
      intro w h w' he
      exact ⟨ih _ (h w' he).1, fun e hfe => ih _ ((h w' he).2 e hfe)⟩
  | update g k ih =>
      intro w h w' he
      exact ⟨ih _ (h w' he).1, fun e hfe => ih _ ((h w' he).2 e hfe)⟩
  | choose k ih => exact fun h w' he n => ih n (h w' he n)
  | mark v k ih =>
      intro w h w' he hv
      exact ⟨(h w' he hv).1, ih (h w' he hv).2⟩

/-- A session outside any transaction. -/
structure Idle (w : World S L V) : Prop where
  frames : w.sess.frames = []
  pend : w.sess.pend = id
  held : w.sess.held = []

/-- A session between transactions stays there. -/
theorem Idle.env {w w' : World S L V} (hi : Idle w) (he : Env Γ w w') : Idle w' := by
  refine ⟨?_, ?_, ?_⟩
  · rw [he.sess]; exact hi.frames
  · rw [he.sess]; exact hi.pend
  · rw [he.sess]; exact hi.held

/-- A top-level transaction body starts with one empty frame. -/
theorem Idle.begin_frames {w : World S L V} (hi : Idle w) :
    w.begin.sess.frames = [⟨id, []⟩] := by
  rw [World.begin_frames, hi.frames, hi.pend, hi.held]

/-- A transaction rolled back leaves the session idle, -/
theorem rollback_idle {w : World S L V} (hf : w.sess.frames = [⟨id, []⟩]) :
    Idle w.rollback := by
  have h : w.rollback = { w with sess := { w.sess with
      frames := [], pend := id, held := [] } } := by
    rw [World.rollback, hf]
  rw [h]
  exact ⟨rfl, rfl, rfl⟩

/-- and so does one that is committed. -/
theorem publish_idle (w : World S L V) : Idle w.publish := ⟨rfl, rfl, rfl⟩

/-- The four ways a `COMMIT` goes. -/
theorem commit_cases (deferred : S → S → Option E) (w : World S L V) :
    (w.sess.frames = [] ∧ w.commit deferred = (.ok (), w)) ∨
    (∃ f, w.sess.frames = [f] ∧ deferred w.db w.view = none ∧
      w.commit deferred = (.ok (), w.publish)) ∨
    (∃ f e, w.sess.frames = [f] ∧ deferred w.db w.view = some e ∧
      w.commit deferred = (.error e, w.rollback)) ∨
    (∃ f g fs, w.sess.frames = f :: g :: fs ∧
      w.commit deferred = (.ok (), w.release)) := by
  rw [World.commit]
  rcases hf : w.sess.frames with _ | ⟨f, _ | ⟨g, fs⟩⟩
  · exact Or.inl ⟨rfl, rfl⟩
  · cases hd : deferred w.db w.view with
    | none => exact Or.inr (Or.inl ⟨f, rfl, rfl, rfl⟩)
    | some e => exact Or.inr (Or.inr (Or.inl ⟨f, e, rfl, rfl, rfl⟩))
  · exact Or.inr (Or.inr (Or.inr ⟨f, g, fs, rfl, rfl⟩))

/-- The outermost commit is accepted if the deferred check is. -/
theorem commit_top {w : World S L V} {f : Frame S L} {deferred : S → S → Option E}
    (hf : w.sess.frames = [f]) (hd : deferred w.db w.view = none) :
    w.commit deferred = (.ok (), w.publish) := by
  rcases commit_cases deferred w with ⟨h, -⟩ | ⟨_, -, -, hc⟩ | ⟨_, e, -, h, -⟩ |
      ⟨_, _, _, h, -⟩
  · rw [hf] at h; exact nomatch h
  · exact hc
  · rw [hd] at h; exact nomatch h
  · rw [hf] at h; exact nomatch h

/-- It is rolled back if the check refuses it. -/
theorem commit_refused {w : World S L V} {f : Frame S L} {deferred : S → S → Option E}
    {e : E} (hf : w.sess.frames = [f]) (hd : deferred w.db w.view = some e) :
    w.commit deferred = (.error e, w.rollback) := by
  rcases commit_cases deferred w with ⟨h, -⟩ | ⟨_, -, h, -⟩ | ⟨_, e', -, h, hc⟩ |
      ⟨_, _, _, h, -⟩
  · rw [hf] at h; exact nomatch h
  · rw [hd] at h; exact nomatch h
  · rw [hd] at h
    cases h
    exact hc
  · rw [hf] at h; exact nomatch h

/-- A savepoint is released. -/
theorem commit_nested {w : World S L V} {f g : Frame S L} {fs : List (Frame S L)}
    {deferred : S → S → Option E} (hf : w.sess.frames = f :: g :: fs) :
    w.commit deferred = (.ok (), w.release) := by
  rcases commit_cases deferred w with ⟨h, -⟩ | ⟨_, h, -⟩ | ⟨_, _, h, -⟩ |
      ⟨_, _, _, -, hc⟩
  · rw [hf] at h; exact nomatch h
  · rw [hf] at h; exact nomatch h
  · rw [hf] at h; exact nomatch h
  · exact hc

/-- **TOP-LEVEL TRANSACTION**: the commit is guaranteed from what the body leaves. -/
theorem wp_atomic_top {Q : Except E α → World S L V → Prop} {m : Prog S L E V α}
    {w : World S L V} {P : World S L V → Except E α → World S L V → Prop}
    (hi : Idle w)
    (hm : ∀ w', Env Γ w w' →
      wp Γ m (fun r w1 => Within Γ w'.begin w1 ∧ P w' r w1) w'.begin)
    (herr : ∀ w' e w1 w2, Env Γ w w' → Within Γ w'.begin w1 → P w' (.error e) w1 →
      Env Γ w1 w2 → Q (.error e) w2.rollback)
    (hok : ∀ w' a w1 w2, Env Γ w w' → Within Γ w'.begin w1 → P w' (.ok a) w1 →
      Env Γ w1 w2 → Γ.deferred w2.db w2.view = none →
        Γ.guar w2.sess.held w2.db w2.view ∧ Q (.ok a) w2.publish)
    (hdef : ∀ w' a e w1 w2, Env Γ w w' → Within Γ w'.begin w1 → P w' (.ok a) w1 →
      Env Γ w1 w2 → Γ.deferred w2.db w2.view = some e → Q (.error e) w2.rollback)
    (hfault : ∀ w' a e w1 w2, Env Γ w w' → Within Γ w'.begin w1 → P w' (.ok a) w1 →
      Env Γ w1 w2 → Γ.fault e → Q (.error e) w2.rollback) :
    wp Γ (Prog.atomic m) Q w := by
  refine wp_atomic (fun w' he => wp_mono ?_ (hm w' he))
  rintro (e | a) w1 ⟨hw, hp⟩ w2 he2
  · exact herr w' e w1 w2 he hw hp he2
  · have hf : w2.sess.frames = [⟨id, []⟩] := by
      rw [he2.sess, hw.frames, (hi.env he).begin_frames]
    refine ⟨fun _ _ hd => (hok w' a w1 w2 he hw hp he2 hd).1, ?_,
      fun e hfe => hfault w' a e w1 w2 he hw hp he2 hfe⟩
    cases hd : Γ.deferred w2.db w2.view with
    | none =>
        rw [commit_top hf hd]
        exact (hok w' a w1 w2 he hw hp he2 hd).2
    | some e =>
        rw [commit_refused hf hd]
        exact hdef w' a e w1 w2 he hw hp he2 hd

end Rules

end TxnLogic
