import Mathlib.Logic.Function.Basic
import Marketplace.TxnFrames

/-! # Invariants that everybody keeps

    An invariant of the committed store may be used in a proof as soon as nobody breaks
    it: `under Γ I` adds it to what a session may rely on and has to guarantee.  A
    session whose writes are only fine for stores of the invariant has them judged at
    its commit, in the context `loosen Γ`.  The last section is what such proofs say
    about runs. -/

namespace TxnInvariants

open TxnProgram TxnInterleaving TxnLogic TxnSoundness TxnBody TxnFrames

variable {ι S L E V α β : Type}

/-! ## Contexts -/

/-- Nobody breaks the invariant. -/
def under (Γ : Ctx S L E V) (I : S → Prop) : Ctx S L E V :=
  { Γ with
    rely := fun held s s' => Γ.rely held s s' ∧ (I s → I s')
    guar := fun held s s' => Γ.guar held s s' ∧ (I s → I s') }

/-- Writes are judged when they are committed. -/
def loosen (Γ : Ctx S L E V) : Ctx S L E V :=
  { Γ with leave := fun _ _ _ => True }

/-- An invariant added on both sides keeps a context lawful. -/
theorem under_lawful {Γ : Ctx S L E V} (hΓ : Lawful Γ) (I : S → Prop) :
    Lawful (under Γ I) where
  refl held s := ⟨hΓ.refl held s, id⟩
  trans held s s' s'' h h' := ⟨hΓ.trans held s s' s'' h.1 h'.1, h'.2 ∘ h.2⟩
  anti held held' s s' hsub h := ⟨hΓ.anti held held' s s' hsub h.1, h.2⟩
  leave_refl := hΓ.leave_refl
  leave_trans := hΓ.leave_trans
  leave_mono := hΓ.leave_mono

/-- A context that judges writes at the commit only is lawful. -/
theorem loosen_lawful {Γ : Ctx S L E V} (hΓ : Lawful Γ) : Lawful (loosen Γ) where
  refl := hΓ.refl
  trans := hΓ.trans
  anti := hΓ.anti
  leave_refl _ _ := trivial
  leave_trans _ _ _ _ _ _ := trivial
  leave_mono _ _ _ _ _ _ := trivial

/-- An invariant that the outside world keeps fits into any family of contexts. -/
theorem fits_under {D : Database S L E} {Γ : ι → Ctx S L E V} (hfit : Fits D Γ)
    {I : S → Prop} (henv : ∀ s s', D.env s s' → I s → I s') :
    Fits D (fun i => under (Γ i) I) where
  lawful i := under_lawful (hfit.lawful i) I
  symm := hfit.symm
  deferred := hfit.deferred
  fault := hfit.fault
  env i held s s' h := ⟨hfit.env i held s s' h, henv s s' h⟩
  guar i j held held' s s' hij hapart hg :=
    ⟨hfit.guar i j held held' s s' hij hapart hg.1, hg.2⟩

/-- Some of the sessions may have their writes judged at their commits. -/
theorem fits_loosen {D : Database S L E} {Γ Γ' : ι → Ctx S L E V} (hfit : Fits D Γ)
    (h : ∀ i, Γ' i = Γ i ∨ Γ' i = loosen (Γ i)) : Fits D Γ' := by
  have hsame : ∀ i, (Γ' i).deferred = (Γ i).deferred ∧ (Γ' i).fault = (Γ i).fault ∧
      (Γ' i).rely = (Γ i).rely ∧ (Γ' i).guar = (Γ i).guar := by
    intro i
    rcases h i with hi | hi
    · rw [hi]
      exact ⟨rfl, rfl, rfl, rfl⟩
    · rw [hi]
      exact ⟨rfl, rfl, rfl, rfl⟩
  refine ⟨fun i => ?_, hfit.symm, fun i => ?_, fun i => ?_, fun i => ?_, fun i j => ?_⟩
  · rcases h i with hi | hi
    · rw [hi]
      exact hfit.lawful i
    · rw [hi]
      exact loosen_lawful (hfit.lawful i)
  · rw [(hsame i).1]
    exact hfit.deferred i
  · rw [(hsame i).2.1]
    exact hfit.fault i
  · rw [(hsame i).2.2.1]
    exact hfit.env i
  · rw [(hsame i).2.2.2, (hsame j).2.2.1]
    exact hfit.guar i j

/-- Every commit is within a relation that others may rely on. -/
def along (Γ : Ctx S L E V) (T : S → S → Prop) : Ctx S L E V :=
  { Γ with
    rely := fun held s s' => Γ.rely held s s' ∧ T s s'
    guar := fun held s s' => Γ.guar held s s' ∧ T s s' }

/-- A context narrowed to a relation that composes is lawful. -/
theorem along_lawful {Γ : Ctx S L E V} (hΓ : Lawful Γ) {T : S → S → Prop} (hT : Composes T) :
    Lawful (along Γ T) where
  refl held s := ⟨hΓ.refl held s, hT.refl s⟩
  trans held s s' s'' h h' := ⟨hΓ.trans held s s' s'' h.1 h'.1, hT.trans s s' s'' h.2 h'.2⟩
  anti held held' s s' hsub h := ⟨hΓ.anti held held' s s' hsub h.1, h.2⟩
  leave_refl := hΓ.leave_refl
  leave_trans := hΓ.leave_trans
  leave_mono := hΓ.leave_mono

/-- **NARROWING**: where every commit and every foreign step stays within `T`, a session may
    rely on `T`. -/
theorem fits_along {D : Database S L E} {Γ : ι → Ctx S L E V} (hfit : Fits D Γ)
    {T : S → S → Prop} (hT : Composes T) (henv : ∀ s s', D.env s s' → T s s') :
    Fits D (fun i => along (Γ i) T) where
  lawful i := along_lawful (hfit.lawful i) hT
  symm := hfit.symm
  deferred := hfit.deferred
  fault := hfit.fault
  env i held s s' h := ⟨hfit.env i held s s' h, henv s s' h⟩
  guar i j held held' s s' hij hapart hg :=
    ⟨hfit.guar i j held held' s s' hij hapart hg.1, hg.2⟩

/-- What is shown of the observations is up to each session. -/
theorem fits_showing {D : Database S L E} {Γ : ι → Ctx S L E V} (hfit : Fits D Γ)
    (shown : ι → V → Nat → S → Prop) : Fits D (fun i => { Γ i with shown := shown i }) where
  lawful i :=
    { refl := (hfit.lawful i).refl
      trans := (hfit.lawful i).trans
      anti := (hfit.lawful i).anti
      leave_refl := (hfit.lawful i).leave_refl
      leave_trans := (hfit.lawful i).leave_trans
      leave_mono := (hfit.lawful i).leave_mono }
  symm := hfit.symm
  deferred := hfit.deferred
  fault := hfit.fault
  env := hfit.env
  guar := hfit.guar

/-! ## A session alone -/

/-- Nobody else is there, and every commit is one of `G`. -/
def alone (D : Database S L E) (G : S → S → Prop) : Ctx S L E V where
  deferred := D.deferred
  fault := D.fault
  rely := fun _ s s' => s' = s
  guar := fun _ => G

/-- A session alone with its database is lawful: nothing moves but by its own hand. -/
theorem alone_lawful (D : Database S L E) (G : S → S → Prop) :
    Lawful (alone D G : Ctx S L E V) where
  refl _ _ := rfl
  trans _ _ _ _ h h' := h'.trans h
  anti _ _ _ _ _ h := h
  leave_refl _ _ := trivial
  leave_trans _ _ _ _ _ _ := trivial
  leave_mono _ _ _ _ _ _ := trivial

/-- One session, and an environment that stands still, fit the database. -/
theorem fits_alone [Subsingleton ι] {D : Database S L E} (G : S → S → Prop)
    (hsymm : ∀ l x, D.conflict l x → D.conflict x l) (henv : ∀ s s', D.env s s' → s' = s) :
    Fits D (fun _ : ι => (alone D G : Ctx S L E V)) where
  lawful _ := alone_lawful D G
  symm := hsymm
  deferred _ := rfl
  fault _ _ h := h
  env _ _ s s' h := henv s s' h
  guar i j _ _ _ _ hij _ _ := absurd (Subsingleton.elim i j) hij

/-! ## A session that changes nothing -/

/-- The database, with other errors that statements may fail with. -/
def failing (D : Database S L E) (F : E → Prop) : Database S L E := { D with fault := F }

/-- A local step under fewer errors is a local step. -/
theorem localStep_of_failing {D : Database S L E} {F : E → Prop}
    (hF : ∀ e, F e → D.fault e) {m m' : Prog S L E V α} {w w' : World S L V}
    (hs : LocalStep (failing D F) (m, w) (m', w')) : LocalStep D (m, w) (m', w') := by
  cases hs with
  | begin => exact .begin ..
  | commit => exact .commit ..
  | commitFault _ _ e he => exact .commitFault _ _ e (hF e he)
  | rollback => exact .rollback ..
  | lock => exact .lock ..
  | lockFault _ _ _ e he => exact .lockFault _ _ _ e (hF e he)
  | query => exact .query ..
  | queryFault _ _ e he => exact .queryFault _ _ e (hF e he)
  | update => exact .update ..
  | updateFault _ _ _ e he => exact .updateFault _ _ _ e (hF e he)
  | choose _ _ n => exact .choose _ _ n
  | mark => exact .mark ..

/-- With fewer errors there are fewer runs. -/
theorem reaches_of_failing [DecidableEq ι] {D : Database S L E} {F : E → Prop}
    (hF : ∀ e, F e → D.fault e) {c c' : Config ι S L E V α}
    (hr : Reaches (failing D F) c c') : Reaches D c c' := by
  induction hr with
  | refl => exact Reaches.refl D c
  | @tail b d _ hs ih =>
      obtain ⟨who, hs⟩ := hs
      have hstep : Step D who b d := by
        cases hs with
        | tick _ t ht => exact .tick _ t ht
        | env _ s he => exact .env _ s he
        | session _ i m w hloc hfree =>
            exact .session _ i m w (localStep_of_failing hF hloc) hfree
      exact ih.step hstep

/-- A session whose commits change nothing, and whose statements fail with `F`. -/
def observer (Γ : Ctx S L E V) (F : E → Prop) : Ctx S L E V :=
  { Γ with fault := F, guar := fun _ s s' => s' = s }

/-- A session that only looks is lawful. -/
theorem observer_lawful {Γ : Ctx S L E V} (hΓ : Lawful Γ) (F : E → Prop) :
    Lawful (observer Γ F) where
  refl := hΓ.refl
  trans := hΓ.trans
  anti := hΓ.anti
  leave_refl := hΓ.leave_refl
  leave_trans := hΓ.leave_trans
  leave_mono := hΓ.leave_mono

/-- One session of a family, as an observer. -/
def observing [DecidableEq ι] (Γ : ι → Ctx S L E V) (i : ι) (F : E → Prop) (j : ι) :
    Ctx S L E V :=
  if j = i then observer (Γ j) F else Γ j

/-- In the system where one session only looks, the others guarantee what they did. -/
theorem fits_observing [DecidableEq ι] {D : Database S L E} {Γ : ι → Ctx S L E V}
    (hfit : Fits D Γ) (i : ι) {F : E → Prop} (hF : ∀ e, F e → D.fault e) :
    Fits (failing D F) (observing Γ i F) := by
  have hsame : ∀ j, (observing Γ i F j).deferred = (Γ j).deferred ∧
      (observing Γ i F j).rely = (Γ j).rely := by
    intro j
    rw [observing]
    split <;> exact ⟨rfl, rfl⟩
  refine ⟨fun j => ?_, hfit.symm, fun j => ?_, fun j e he => ?_, fun j => ?_,
    fun j k held held' s s' hjk hapart hg => ?_⟩
  · rw [observing]
    split
    · exact observer_lawful (hfit.lawful j) F
    · exact hfit.lawful j
  · rw [(hsame j).1]
    exact hfit.deferred j
  · rw [observing]
    split
    · exact he
    · exact hfit.fault j e (hF e he)
  · rw [(hsame j).2]
    exact hfit.env j
  · rw [(hsame k).2]
    rw [observing] at hg
    split at hg
    · have hs : s' = s := hg
      rw [hs]
      exact (hfit.lawful k).refl _ _
    · exact hfit.guar j k held held' s s' hjk hapart hg

/-! ## A session that waits for a moment -/

/-- A session that changes nothing and observes only what is `quiet`, as long as it makes no
    `loud` observation. -/
def silent (Γ : Ctx S L E V) (loud quiet : V → Prop) : Ctx S L E V :=
  { Γ with
    guar := fun _ s s' => s' = s
    given := fun v now s => Γ.given v now s ∧ ¬ loud v
    shown := fun v _ _ => quiet v }

/-- A session that changes nothing, and is given less, is lawful. -/
theorem silent_lawful {Γ : Ctx S L E V} (hΓ : Lawful Γ) (loud quiet : V → Prop) :
    Lawful (silent Γ loud quiet) where
  refl := hΓ.refl
  trans := hΓ.trans
  anti := hΓ.anti
  leave_refl := hΓ.leave_refl
  leave_trans := hΓ.leave_trans
  leave_mono := hΓ.leave_mono

/-- One session of a family, silent. -/
def silencing [DecidableEq ι] (Γ : ι → Ctx S L E V) (i : ι) (loud quiet : V → Prop) (j : ι) :
    Ctx S L E V :=
  if j = i then silent (Γ j) loud quiet else Γ j

/-- A session may be told less of the moments without harm to the others. -/
theorem fits_silencing [DecidableEq ι] {D : Database S L E} {Γ : ι → Ctx S L E V}
    (hfit : Fits D Γ) (i : ι) (loud quiet : V → Prop) : Fits D (silencing Γ i loud quiet) := by
  have hsame : ∀ j, (silencing Γ i loud quiet j).deferred = (Γ j).deferred ∧
      (silencing Γ i loud quiet j).fault = (Γ j).fault ∧
      (silencing Γ i loud quiet j).rely = (Γ j).rely := by
    intro j
    rw [silencing]
    split <;> exact ⟨rfl, rfl, rfl⟩
  refine ⟨fun j => ?_, hfit.symm, fun j => ?_, fun j e he => ?_, fun j => ?_,
    fun j k held held' s s' hjk hapart hg => ?_⟩
  · rw [silencing]
    split
    · exact silent_lawful (hfit.lawful j) loud quiet
    · exact hfit.lawful j
  · rw [(hsame j).1]
    exact hfit.deferred j
  · rw [(hsame j).2.1]
    exact hfit.fault j e he
  · rw [(hsame j).2.2]
    exact hfit.env j
  · rw [(hsame k).2.2]
    rw [silencing] at hg
    split at hg
    · have hs : s' = s := hg
      rw [hs]
      exact (hfit.lawful k).refl _ _
    · exact hfit.guar j k held held' s s' hjk hapart hg

/-- A program that makes no observations. -/
def mute (Γ : Ctx S L E V) : Ctx S L E V := { Γ with shown := fun _ _ _ => False }

/-- A session that shows nothing is lawful. -/
theorem mute_lawful {Γ : Ctx S L E V} (hΓ : Lawful Γ) : Lawful (mute Γ) where
  refl := hΓ.refl
  trans := hΓ.trans
  anti := hΓ.anti
  leave_refl := hΓ.leave_refl
  leave_trans := hΓ.leave_trans
  leave_mono := hΓ.leave_mono

/-- A program that makes no observations runs where some may be made. -/
theorem wp_of_mute {Γ : Ctx S L E V} {Q : Except E α → World S L V → Prop} {m : Prog S L E V α}
    {w : World S L V} (h : wp (mute Γ) m Q w) : wp Γ m Q w := by
  have hjoins : Joins (mute Γ) (mute Γ) Γ := {
    deferred := ⟨rfl, rfl⟩
    fault := fun _ he => ⟨he, he⟩
    rely := fun _ _ _ hr => ⟨hr, hr⟩
    guar := fun _ _ _ hg _ => hg
    given := fun _ _ _ hv => ⟨hv, hv⟩
    shown := fun _ _ _ hv _ => False.elim hv }
  exact wp_mono (fun _ _ hq => hq.1) (wp_both hjoins h h)

/-- **KEEPING**: what the others, the commits and the observations of a context keep of the
    store and of a session's history, every program in the context keeps. -/
theorem wp_keeping {Γ : Ctx S L E V} {J : S → List (Event S V) → Prop}
    (hrely : ∀ held s s' h, Γ.rely held s s' → J s h → J s' h)
    (hguar : ∀ held s s' h, Γ.guar held s s' → J s h → J s' (.committed s s' :: h))
    (hshown : ∀ v now s h, Γ.shown v now s → J s h → J s (.marked now s v :: h))
    {Q : Except E α → World S L V → Prop} {m : Prog S L E V α} :
    ∀ {w : World S L V}, J w.db w.sess.hist → wp Γ m Q w →
      wp Γ m (fun r w' => Q r w' ∧ J w'.db w'.sess.hist) w := by
  have henv : ∀ {w w' : World S L V}, Env Γ w w' → J w.db w.sess.hist →
      J w'.db w'.sess.hist := by
    intro w w' he hJ
    rw [he.sess]
    exact hrely _ _ _ _ he.db hJ
  have hroll : ∀ {w : World S L V}, J w.db w.sess.hist →
      J w.rollback.db w.rollback.sess.hist := by
    intro w hJ
    rw [World.rollback_db, World.rollback_hist]
    exact hJ
  induction m with
  | ret a => exact fun hJ hq => ⟨hq, hJ⟩
  | raise e => exact fun hJ hq => ⟨hq, hJ⟩
  | begin k ih =>
      intro w hJ hq w' he
      have hJ' := henv he hJ
      exact ih (w := w'.begin) hJ' (hq w' he)
  | commit k ih =>
      intro w hJ hq w' he
      have hJ' := henv he hJ
      obtain ⟨hg, hk, hf⟩ := hq w' he
      refine ⟨hg, ih _ ?_ hk, fun e hfe => ih _ (hroll hJ') (hf e hfe)⟩
      -- only a commit of the outermost transaction, if it is accepted, is one of the session
      rcases commit_cases Γ.deferred w' with ⟨-, hc⟩ | ⟨f, hfr, hd, hc⟩ | ⟨_, _, -, -, hc⟩ |
          ⟨_, _, _, -, hc⟩
      · rw [hc]
        exact hJ'
      · rw [hc]
        exact hguar _ _ _ _ (hg f hfr hd) hJ'
      · rw [hc]
        exact hroll hJ'
      · rw [hc]
        exact hJ'
  | rollback k ih => exact fun hJ hq w' he => ih (hroll (henv he hJ)) (hq w' he)
  | lock l k ih =>
      intro w hJ hq w' he
      have hJ' := henv he hJ
      exact ⟨ih _ (w := w'.hold l) hJ' (hq w' he).1, fun e hfe => ih _ hJ' ((hq w' he).2 e hfe)⟩
  | query k ih =>
      intro w hJ hq w' he
      have hJ' := henv he hJ
      exact ⟨ih _ hJ' (hq w' he).1, fun e hfe => ih _ hJ' ((hq w' he).2 e hfe)⟩
  | update f k ih =>
      intro w hJ hq w' he
      have hJ' := henv he hJ
      exact ⟨ih _ (w := w'.write f) hJ' (hq w' he).1, fun e hfe => ih _ hJ' ((hq w' he).2 e hfe)⟩
  | choose k ih => exact fun hJ hq w' he n => ih n (henv he hJ) (hq w' he n)
  | mark v k ih =>
      intro w hJ hq w' he hv
      have hJ' := henv he hJ
      obtain ⟨hsh, hk⟩ := hq w' he hv
      exact ⟨hsh, ih (w := w'.note v) (hshown _ _ _ _ hsh hJ') hk⟩

/-- The observations of `h` were made before. -/
def NoNewMarks (before h : List (Event S V)) : Prop :=
  ∀ now db v, Event.marked now db v ∈ h → Event.marked now db v ∈ before

/-- **MUTE**: what is proved where no observation may be made. -/
theorem wp_mute {Γ : Ctx S L E V} {Q : Except E α → World S L V → Prop} {m : Prog S L E V α}
    (before : List (Event S V)) {w : World S L V} (h : NoNewMarks before w.sess.hist)
    (hq : wp (mute Γ) m Q w) :
    wp Γ m (fun r w' => Q r w' ∧ NoNewMarks before w'.sess.hist) w := by
  refine wp_of_mute (wp_keeping (J := fun _ h => NoNewMarks before h) (fun _ _ _ _ _ h => h)
    (fun _ _ _ h _ hold => ?_) (fun _ _ _ _ hv _ => False.elim hv) h hq)
  intro now db v hm
  rcases List.mem_cons.mp hm with hm | hm
  · exact nomatch hm
  · exact hold now db v hm

/-! ## Programs -/

section Programs

variable {Γ : Ctx S L E V} {I : S → Prop} {w w' : World S L V}

/-- The others keep the invariant. -/
def Steady (Γ : Ctx S L E V) (I : S → Prop) : Prop :=
  ∀ held s s', Γ.rely held s s' → I s → I s'

/-- The invariant that a session relies on is steady for it. -/
theorem under_steady (Γ : Ctx S L E V) (I : S → Prop) : Steady (under Γ I) I :=
  fun _ _ _ h => h.2

/-- **INVARIANT**: a program in whose context everybody keeps it ends with it. -/
theorem wp_invariant (hrely : Steady Γ I) (hguar : ∀ held s s', Γ.guar held s s' → I s → I s')
    {Q : Except E α → World S L V → Prop} {m : Prog S L E V α} {w : World S L V} (hI : I w.db)
    (hq : wp Γ m Q w) : wp Γ m (fun r w' => Q r w' ∧ I w'.db) w :=
  wp_keeping (J := fun s _ => I s) (fun _ _ _ _ hr hs => hrely _ _ _ hr hs)
    (fun _ _ _ _ hg hs => hguar _ _ _ hg hs) (fun _ _ _ _ _ hs => hs) hI hq

/-- A program only adds to the history of its session. -/
theorem wp_hist {Q : Except E α → World S L V → Prop} {m : Prog S L E V α} {w : World S L V}
    (hq : wp Γ m Q w) : wp Γ m (fun r w' => Q r w' ∧ w.sess.hist <:+ w'.sess.hist) w :=
  wp_keeping (J := fun _ h => w.sess.hist <:+ h) (fun _ _ _ _ _ h => h)
    (fun _ _ _ _ _ h => h.trans (List.suffix_cons _ _))
    (fun _ _ _ _ _ h => h.trans (List.suffix_cons _ _)) List.suffix_rfl hq

/-- Every commit of the session so far is one of `R`. -/
def CommitsAre (R : S → S → Prop) (w : World S L V) : Prop :=
  ∀ e ∈ commitsOf w.sess.hist, R e.1 e.2

/-- A program in a context that guarantees `R` has no other commits. -/
theorem wp_commits {R : S → S → Prop} (hguar : ∀ held s s', Γ.guar held s s' → R s s')
    {Q : Except E α → World S L V → Prop} {m : Prog S L E V α} {w : World S L V}
    (hR : CommitsAre R w) (hq : wp Γ m Q w) :
    wp Γ m (fun r w' => Q r w' ∧ CommitsAre R w') w := by
  refine wp_keeping (J := fun _ h => ∀ e ∈ commitsOf h, R e.1 e.2) (fun _ _ _ _ _ h => h)
    (fun _ _ _ _ hg h e he => ?_) (fun _ _ _ _ _ h => h) hR hq
  rcases List.mem_cons.mp he with rfl | he
  · exact hguar _ _ _ hg
  · exact h e he

/-- **ENDING**: left to itself, a program whose observations are all given ends, in its
    postcondition. -/
theorem wp_ends (hΓ : Lawful Γ) (hgiven : ∀ v now s, Γ.given v now s)
    {Q : Except E α → World S L V → Prop} {m : Prog S L E V α} :
    ∀ {w : World S L V}, wp Γ m Q w → ∃ r w', Q r w' := by
  induction m with
  | ret a => exact fun {w} hq => ⟨.ok a, w, hq⟩
  | raise e => exact fun {w} hq => ⟨.error e, w, hq⟩
  | begin k ih => exact fun hq => ih (hq _ (Env.refl hΓ _))
  | commit k ih => exact fun hq => ih _ (hq _ (Env.refl hΓ _)).2.1
  | rollback k ih => exact fun hq => ih (hq _ (Env.refl hΓ _))
  | lock l k ih => exact fun hq => ih _ (hq _ (Env.refl hΓ _)).1
  | query k ih => exact fun hq => ih _ (hq _ (Env.refl hΓ _)).1
  | update f k ih => exact fun hq => ih _ (hq _ (Env.refl hΓ _)).1
  | choose k ih => exact fun hq => ih 0 (hq _ (Env.refl hΓ _) 0)
  | mark v k ih => exact fun hq => ih (hq _ (Env.refl hΓ _) (hgiven _ _ _)).2

/-- **TRANSACTION UNDER AN INVARIANT**: what the body ends with is still so at the commit,
    and may be used together with the invariant to guarantee it. -/
theorem wp_settled (hΓ : Lawful Γ) (hI : Steady Γ I) {m : Prog S L E V α}
    {P : α → World S L V → Prop} {Q : Except E α → World S L V → Prop} (hi : Idle w)
    (h : I w.db)
    (hbody : ∀ w', w'.sess.pend = id → w'.sess.frames ≠ [] → I w'.db →
      Body Γ m w' P anyError)
    (hstable : ∀ a w1 w2, P a w1 → Env Γ w1 w2 → P a w2)
    (herr : ∀ e w3, Idle w3 → I w3.db → commitsOf w3.sess.hist = commitsOf w.sess.hist →
      Q (.error e) w3)
    (hok : ∀ a w2, I w2.db → commitsOf w2.sess.hist = commitsOf w.sess.hist →
      Γ.leave w2.sess.held w2.db w2.view → P a w2 →
      Γ.guar w2.sess.held w2.db w2.view ∧ Q (.ok a) w2.publish) :
    wp Γ (Prog.atomic m) Q w := by
  refine wp_transaction hΓ (P := fun _ => P) (F := anyError) hi (fun w' he => ?_)
    anyError_faults (fun e w3 _ hidle hc hdb => herr e w3 hidle (hI _ _ _ hdb h) hc) ?_
  · refine hbody _ ?_ ?_ (hI _ _ _ he.db h)
    · rw [World.begin_pend, he.sess]
      exact hi.pend
    · rw [World.begin_frames]
      exact List.cons_ne_nil _ _
  · intro w' a w1 w2 he hw hp he2 hleave
    refine ⟨fun _ => hok a w2 ?_ ?_ hleave (hstable a w1 w2 hp he2), fun _ _ => trivial⟩
    · exact hI _ _ _ he2.db (hI _ _ _ hw.db (hI _ _ _ he.db h))
    · rw [he2.sess, hw.commits, World.begin_hist, he.sess]

/-- The commits of a history are never fewer than those of its past. -/
theorem length_commitsOf_append (l h : List (Event S V)) :
    (commitsOf h).length ≤ (commitsOf (l ++ h)).length := by
  induction l with
  | nil => exact Nat.le_refl _
  | cons e l ih =>
      cases e with
      | committed s s' => exact Nat.le_succ_of_le ih
      | marked now db v => exact ih

/-- The commits of a longer history are those of its parts, in order. -/
theorem commitsOf_append (l h : List (Event S V)) :
    commitsOf (l ++ h) = commitsOf l ++ commitsOf h := by
  induction l with
  | nil => rfl
  | cons e l ih =>
      cases e with
      | committed s s' => exact congrArg ((s, s') :: ·) ih
      | marked now db v => exact ih

/-- What was committed stays in the history. -/
theorem mem_commitsOf_suffix {h h' : List (Event S V)} (hs : h <:+ h') {x : S × S}
    (hx : x ∈ commitsOf h) : x ∈ commitsOf h' := by
  obtain ⟨l, rfl⟩ := hs
  rw [commitsOf_append]
  exact List.mem_append_right _ hx

/-- A property of histories that observations keep is kept while nothing is committed. -/
theorem hist_of_marks {H : List (Event S V) → Prop}
    (hmark : ∀ now db v h, H h → H (.marked now db v :: h)) {h h' : List (Event S V)}
    (hsuffix : h <:+ h') (hcommits : commitsOf h' = commitsOf h) (hH : H h) : H h' := by
  obtain ⟨l, rfl⟩ := hsuffix
  induction l with
  | nil => exact hH
  | cons e l ih =>
      cases e with
      | committed s s' =>
          have hlen := congrArg List.length hcommits
          have hle := length_commitsOf_append l h
          simp only [List.cons_append, commitsOf, List.length_cons] at hlen
          omega
      | marked now db v => exact hmark _ _ _ _ (ih hcommits)

/-- A body only adds to the history of its session. -/
theorem Body.hist {m : Prog S L E V α} {P : α → World S L V → Prop} {F : E → Prop}
    (h : Body Γ m w P F) :
    Body Γ m w (fun a w' => P a w' ∧ w.sess.hist <:+ w'.sess.hist) F := by
  refine wp_mono ?_ (wp_hist h)
  rintro (e | a) w' ⟨⟨hw, hr⟩, hh⟩
  · exact ⟨hw, hr⟩
  · exact ⟨hw, hr, hh⟩

/-- **TRANSACTION, RECORDED**: a property of histories that observations keep, before and
    after a transaction that keeps it with its commit. -/
theorem wp_recorded (hΓ : Lawful Γ) {H : List (Event S V) → Prop}
    (hmark : ∀ now db v h, H h → H (.marked now db v :: h)) {m : Prog S L E V α}
    {P : α → World S L V → Prop} {Q : Except E α → World S L V → Prop} (hi : Idle w)
    (hH : H w.sess.hist)
    (hbody : ∀ w', w'.sess.pend = id → w'.sess.frames ≠ [] → Body Γ m w' P anyError)
    (hstable : ∀ a w1 w2, P a w1 → Env Γ w1 w2 → P a w2)
    (herr : ∀ e w3, Idle w3 → H w3.sess.hist → commitsOf w3.sess.hist = commitsOf w.sess.hist →
      Γ.rely [] w.db w3.db → Q (.error e) w3)
    (hok : ∀ a w2, Γ.rely [] w.db w2.db → commitsOf w2.sess.hist = commitsOf w.sess.hist →
      Γ.leave w2.sess.held w2.db w2.view → P a w2 → H w2.sess.hist →
      Γ.guar w2.sess.held w2.db w2.view ∧ Q (.ok a) w2.publish) :
    wp Γ (Prog.atomic m) Q w := by
  have hrely : ∀ held s s', Γ.rely held s s' → Γ.rely [] s s' :=
    fun held s s' => hΓ.anti _ _ _ _ fun _ hl => nomatch hl
  have hwp : wp Γ (Prog.atomic m) (fun r w' => (∀ a, r = .ok a → Q (.ok a) w') ∧
      ∀ e, r = .error e → Idle w' ∧ commitsOf w'.sess.hist = commitsOf w.sess.hist ∧
        Γ.rely [] w.db w'.db) w := by
    refine wp_transaction hΓ (F := anyError)
      (P := fun w' a w1 => P a w1 ∧ w'.begin.sess.hist <:+ w1.sess.hist) hi
      (fun w' he => Body.hist (hbody _ ?_ ?_)) anyError_faults
      (fun e w3 _ hidle hc hdb => ⟨by rintro _ ⟨⟩, fun _ _ => ⟨hidle, hc, hdb⟩⟩) ?_
    · rw [World.begin_pend, he.sess]
      exact hi.pend
    · rw [World.begin_frames]
      exact List.cons_ne_nil _ _
    · intro w' a w1 w2 he hw hpost he2 hleave
      obtain ⟨hp, hh⟩ := hpost
      have hc : commitsOf w2.sess.hist = commitsOf w.sess.hist := by
        rw [he2.sess, hw.commits, World.begin_hist, he.sess]
      have hh2 : w.sess.hist <:+ w2.sess.hist := by
        rw [World.begin_hist, he.sess] at hh
        rw [he2.sess]
        exact hh
      have hdb : Γ.rely [] w.db w2.db := hΓ.trans _ _ _ _ (hrely _ _ _ he.db)
        (hΓ.trans _ _ _ _ (hrely _ _ _ hw.db) (hrely _ _ _ he2.db))
      obtain ⟨hguar, hq⟩ := hok a w2 hdb hc hleave (hstable a w1 w2 hp he2)
        (hist_of_marks hmark hh2 hc hH)
      refine ⟨fun _ => ⟨hguar, ?_, by rintro _ ⟨⟩⟩, fun _ _ => trivial⟩
      rintro _ ⟨⟩
      exact hq
  refine wp_mono ?_ (wp_hist hwp)
  rintro (e | a) w' ⟨hq, hh⟩
  · obtain ⟨hidle, hc, hdb⟩ := hq.2 e rfl
    exact herr e w' hidle (hist_of_marks hmark hh hc hH) hc hdb
  · exact hq.1 a rfl

end Programs

/-! ## Runs -/

section Runs

variable [DecidableEq ι] {D : Database S L E} {Γ : ι → Ctx S L E V}
  {prog : ι → Prog S L E V α} {Q : ι → Except E α → World S L V → Prop} {s : S} {now : Nat}
  {c c' : Config ι S L E V α}

omit [DecidableEq ι] in
/-- At the start no session has shown anything. -/
theorem allSee_start (P : ι → V → Nat → S → Prop) :
    AllSee P (Config.start s now prog) := by
  intro i now' db v hm
  exact nomatch hm

/-- What is given of the observations made so far may speak of the present time: it is
    given at every time of a run, if it is of each new one. -/
theorem allSee_by_time {P : Nat → V → Nat → S → Prop}
    (hmono : ∀ T T' v now s, T ≤ T' → P T v now s → P T' v now s)
    (hnew : ∀ c, Reaches D (Config.start s now prog) c → AllSee (fun _ => P c.now) c →
      ∀ v, P c.now v c.now c.db) (hr : Reaches D (Config.start s now prog) c) :
    AllSee (fun _ => P c.now) c := by
  induction hr with
  | refl => exact allSee_start _
  | @tail b c' hr hs ih =>
      obtain ⟨who, hs⟩ := hs
      intro i t db v hm
      rcases mark_step hs hm with hold | ⟨rfl, rfl, -⟩
      · exact hmono _ _ _ _ _ (now_step hs) (ih i t db v hold)
      · exact hmono _ _ _ _ _ (now_step hs) (hnew b hr ih v)

/-- **RUNS**: the programs stay supported. -/
theorem run_supported (hfit : Fits D Γ) (hsup : Supported Γ Q (Config.start s now prog))
    (hr : Reaches D (Config.start s now prog) c) (hgiven : AllSee (fun i => (Γ i).given) c) :
    LocksApart D c ∧ Supported Γ Q c ∧ AllSee (fun i => (Γ i).shown) c :=
  sound hfit hr (locksApart_start D s now prog) hsup (allSee_start _) hgiven

/-- **RUNS**: what every guaranteed commit keeps is kept from one configuration that is
    reached to every later one. -/
theorem run_onward (hfit : Fits D Γ) (hsup : Supported Γ Q (Config.start s now prog))
    {J : S → Prop} (henv : ∀ s s', J s → D.env s s' → J s')
    (hguar : ∀ i held s s', J s → (Γ i).guar held s s' → J s')
    (hr : Reaches D (Config.start s now prog) c) (hr' : Reaches D c c')
    (hgiven : AllSee (fun i => (Γ i).given) c') (h : J c.db) : J c'.db := by
  obtain ⟨ha, hs, hsh⟩ := run_supported hfit hsup hr (allSee_of_reaches hr' hgiven)
  exact store_invariant hfit henv hguar hr' ha hs hsh hgiven h

/-- **RUNS**: a step that changes the store is a guaranteed commit of its session. -/
theorem run_step (hfit : Fits D Γ) (hsup : Supported Γ Q (Config.start s now prog))
    (hr : Reaches D (Config.start s now prog) c) {i : ι} (hs : Step D (some i) c c')
    (hgiven : AllSee (fun i => (Γ i).given) c') :
    c'.db = c.db ∨ (Γ i).guar (c.sess i).held c.db c'.db := by
  obtain ⟨-, hsup', hshown⟩ := run_supported hfit hsup hr (allSee_of_step hs hgiven)
  exact guar_of_step hfit hs hsup' hshown hgiven

/-- **RUNS**: the history of a session goes on to one of its postcondition. -/
theorem run_history (hfit : Fits D Γ) (hsup : Supported Γ Q (Config.start s now prog))
    (hr : Reaches D (Config.start s now prog) c) (hgiven : ∀ i v now s, (Γ i).given v now s)
    (i : ι) : ∃ r w, Q i r w ∧ (c.sess i).hist <:+ w.sess.hist := by
  obtain ⟨-, hsup', -⟩ := run_supported hfit hsup hr fun j _ _ _ _ => hgiven j _ _ _
  obtain ⟨w, he, hw⟩ := hsup' i
  obtain ⟨r, w', hq, hh⟩ := wp_ends (hfit.lawful i) (hgiven i) (wp_hist hw)
  refine ⟨r, w', hq, ?_⟩
  rw [show c.sess i = w.sess from he.sess]
  exact hh

/-- **RUNS**: a program that has ended has met its postcondition. -/
theorem run_ended (hfit : Fits D Γ) (hsup : Supported Γ Q (Config.start s now prog))
    (hr : Reaches D (Config.start s now prog) c) (hgiven : AllSee (fun i => (Γ i).given) c)
    {i : ι} {r : Except E α} (h : c.prog i = Prog.ofAnswer r) :
    ∃ w, Env (Γ i) w (c.world i) ∧ Q i r w := by
  obtain ⟨-, hsup', -⟩ := run_supported hfit hsup hr hgiven
  obtain ⟨w, he, hw⟩ := hsup' i
  rw [h] at hw
  cases r with
  | ok a => exact ⟨w, he, hw⟩
  | error e => exact ⟨w, he, hw⟩

/-- **RUNS**: what is proved of a program from where it stands holds when it has ended. -/
theorem run_later (hfit : Fits D Γ) (ha : LocksApart D c) (hsup : Supported Γ Q c)
    (hshown : AllSee (fun i => (Γ i).shown) c) {i : ι} {P : Except E α → World S L V → Prop}
    (hwp : wp (Γ i) (c.prog i) P (c.world i)) (hr' : Reaches D c c')
    (hgiven : AllSee (fun i => (Γ i).given) c') {r : Except E α}
    (h : c'.prog i = Prog.ofAnswer r) : ∃ w, Env (Γ i) w (c'.world i) ∧ P r w := by
  have hsup' : Supported Γ (fun j r w => j = i → P r w) c := by
    intro j
    by_cases hj : j = i
    · subst hj
      exact ⟨_, Env.refl (hfit.lawful j) _, wp_mono (fun _ _ hp _ => hp) hwp⟩
    · obtain ⟨w, he, hw⟩ := hsup j
      exact ⟨w, he, wp_mono (fun _ _ _ hc => absurd hc hj) hw⟩
  obtain ⟨w, he, hw⟩ := (sound hfit hr' ha hsup' hshown hgiven).2.1 i
  rw [h] at hw
  cases r with
  | ok a => exact ⟨w, he, hw rfl⟩
  | error e => exact ⟨w, he, hw rfl⟩

/-- **RUNS**: as long as a session has made no loud observation, it has changed nothing, and
    what it observed is quiet. -/
theorem run_silent (hfit : Fits D Γ) (hsup : Supported Γ Q (Config.start s now prog)) {i : ι}
    {loud quiet : V → Prop} {P : Except E α → World S L V → Prop}
    (hwp : wp (silent (Γ i) loud quiet) (prog i) P ⟨s, now, {}⟩)
    (hr : Reaches D (Config.start s now prog) c) (hgiven : AllSee (fun i => (Γ i).given) c)
    (hnone : ∀ t db v, Event.marked t db v ∈ (c.sess i).hist → ¬ loud v) :
    (∀ e ∈ commitsOf (c.sess i).hist, e.2 = e.1) ∧
      ∀ t db v, Event.marked t db v ∈ (c.sess i).hist → quiet v := by
  have hfit' := fits_silencing hfit i loud quiet
  have hself : silencing Γ i loud quiet i = silent (Γ i) loud quiet := if_pos rfl
  have hother : ∀ {j}, j ≠ i → silencing Γ i loud quiet j = Γ j := fun hj => if_neg hj
  have hsup' : Supported (silencing Γ i loud quiet) (fun j r w => j = i → P r w)
      (Config.start s now prog) := by
    intro j
    by_cases hj : j = i
    · subst hj
      refine ⟨_, Env.refl (hfit'.lawful j) _, ?_⟩
      rw [hself]
      exact wp_mono (fun _ _ h _ => h) hwp
    · obtain ⟨w, he, hw⟩ := hsup j
      rw [hother hj]
      exact ⟨w, he, wp_mono (fun _ _ _ h => absurd h hj) hw⟩
  have hgiven' : AllSee (fun j => (silencing Γ i loud quiet j).given) c := by
    intro j t db v hm
    by_cases hj : j = i
    · subst hj
      show (silencing Γ j loud quiet j).given v t db
      rw [hself]
      exact ⟨hgiven j t db v hm, hnone t db v hm⟩
    · show (silencing Γ i loud quiet j).given v t db
      rw [hother hj]
      exact hgiven j t db v hm
  refine ⟨fun e he => ?_, fun t db v hm => ?_⟩
  · obtain ⟨d, d', h1, hs, h2, hd, hd'⟩ := commit_reached hr rfl he
    have hseen := allSee_of_reaches h2 hgiven'
    obtain ⟨-, hsup1, hshown1⟩ := run_supported hfit' hsup' h1 (allSee_of_step hs hseen)
    rw [← hd, ← hd']
    rcases guar_of_step hfit' hs hsup1 hshown1 hseen with hdb | hg
    · exact hdb
    · rw [hself] at hg
      exact hg
  · obtain ⟨-, -, hshown⟩ := run_supported hfit' hsup' hr hgiven'
    have h : (silencing Γ i loud quiet i).shown v t db := hshown i t db v hm
    rw [hself] at h
    exact h

/-- **RUNS**: from a supported configuration on, a session that changes nothing changes
    nothing, and ends in its postcondition. -/
theorem run_observer (hfit : Fits D Γ) (hapart : LocksApart D c) (hsup : Supported Γ Q c)
    (hshown : AllSee (fun i => (Γ i).shown) c) {i : ι} {F : E → Prop}
    (hF : ∀ e, F e → D.fault e) {P : Except E α → World S L V → Prop}
    (hwp : wp (observer (Γ i) F) (c.prog i) P (c.world i))
    (hr : Reaches (failing D F) c c') (hgiven : AllSee (fun i => (Γ i).given) c') :
    (∀ d, Step (failing D F) (some i) c' d → AllSee (fun i => (Γ i).given) d →
      d.db = c'.db) ∧
    ∀ r, c'.prog i = Prog.ofAnswer r → ∃ w, Env (Γ i) w (c'.world i) ∧ P r w := by
  have hfit' := fits_observing hfit i hF
  have hself : observing Γ i F i = observer (Γ i) F := if_pos rfl
  have hsame : ∀ j, (observing Γ i F j).given = (Γ j).given ∧
      (observing Γ i F j).shown = (Γ j).shown := by
    intro j
    rw [observing]
    split <;> exact ⟨rfl, rfl⟩
  have hsup' : Supported (observing Γ i F) (fun j r w => j = i → P r w) c := by
    intro j
    by_cases hj : j = i
    · subst hj
      refine ⟨c.world j, Env.refl (hfit'.lawful j) _, ?_⟩
      rw [hself]
      exact wp_mono (fun _ _ h _ => h) hwp
    · obtain ⟨w, he, hw⟩ := hsup j
      rw [show observing Γ i F j = Γ j from if_neg hj]
      exact ⟨w, he, wp_mono (fun _ _ _ h => absurd h hj) hw⟩
  have hshown' : AllSee (fun j => (observing Γ i F j).shown) c := by
    intro j
    show Sees (observing Γ i F j).shown _
    rw [(hsame j).2]
    exact hshown j
  have hgiven' : ∀ {d : Config ι S L E V α}, AllSee (fun j => (Γ j).given) d →
      AllSee (fun j => (observing Γ i F j).given) d := by
    intro d h j
    show Sees (observing Γ i F j).given _
    rw [(hsame j).1]
    exact h j
  obtain ⟨-, hsup2, hshown2⟩ := sound hfit' hr hapart hsup' hshown' (hgiven' hgiven)
  refine ⟨fun d hs hd => ?_, fun r hprog => ?_⟩
  · rcases guar_of_step hfit' hs hsup2 hshown2 (hgiven' hd) with hdb | hg
    · exact hdb
    · rw [hself] at hg
      exact hg
  · obtain ⟨w, he, hw⟩ := hsup2 i
    rw [hself] at he hw
    rw [hprog] at hw
    refine ⟨w, ⟨he.sess, he.now, he.db⟩, ?_⟩
    cases r with
    | ok a => exact hw rfl
    | error e => exact hw rfl

end Runs

end TxnInvariants
