import Mathlib.Logic.Function.Basic
import Marketplace.TxnBody
import Marketplace.TxnSoundness

/-! # Programs that are safe without bookkeeping

    `Safe Γ m`: whatever the moment, every write of `m` is one that the context
    allows.  The rules compose without facts about the state, so that a long program
    is safe as soon as its statements are.  In the context `frame W` the writes
    allowed are those of a relation `W`: being safe there is a frame property of the
    text of the program, and `Body.framed` adds it to any specification.  `Top` is
    the same for programs between transactions. -/

namespace TxnFrames

open TxnProgram TxnInterleaving TxnLogic TxnSoundness TxnBody

variable {ι S L E V α β γ : Type}

/-- Every write of the program is allowed, inside any transaction that holds the locks
    `ls`. -/
def Safe (Γ : Ctx S L E V) (ls : List L) (m : Prog S L E V α) : Prop :=
  ∀ w : World S L V, w.sess.frames ≠ [] → (∀ l ∈ ls, l ∈ w.sess.held) →
    Body Γ m w (fun _ _ => True) anyError

section Rules

variable {Γ : Ctx S L E V} {ls : List L}

/-- A program that only looks is safe. -/
theorem Safe.of_look (hΓ : Lawful Γ) {m : Prog S L E V α}
    {P : World S L V → α → World S L V → Prop}
    (h : ∀ w, Look Γ m w (P w) anyError) : Safe Γ ls m :=
  fun w _ _ => ((h w).body hΓ).mono fun _ _ _ _ => trivial

theorem Safe.ret (hΓ : Lawful Γ) (a : α) : Safe Γ ls (.ret a : Prog S L E V α) :=
  fun _ _ _ => Body.ret hΓ trivial

theorem Safe.raise (hΓ : Lawful Γ) (e : E) : Safe Γ ls (.raise e : Prog S L E V α) :=
  fun _ _ _ => Body.raise hΓ trivial

/-- What is open and held stays so within the frame. -/
theorem Safe.after {m : Prog S L E V α} {w w' : World S L V} (h : Safe Γ ls m)
    (hw : Near Γ w w') (hopen : w.sess.frames ≠ []) (hheld : ∀ l ∈ ls, l ∈ w.sess.held) :
    Body Γ m w' (fun _ _ => True) anyError :=
  h w' (by rw [hw.frames]; exact hopen) fun l hl => hw.held (hheld l hl)

/-- Safe programs in a sequence. -/
theorem Safe.bind (hΓ : Lawful Γ) {m : Prog S L E V α} {f : α → Prog S L E V β}
    (hm : Safe Γ ls m) (hf : ∀ a, Safe Γ ls (f a)) : Safe Γ ls (m >>= f) :=
  fun w hopen hheld => Body.bind hΓ (hm w hopen hheld) fun a _ h1 _ =>
    (hf a).after h1.toNear hopen hheld

/-- A statement that takes locks, and the rest under them. -/
theorem Safe.bindLocked (hΓ : Lawful Γ) {m : Prog S L E V α} {f : α → Prog S L E V β}
    {P : α → Prop} (locks : α → List L)
    (hm : ∀ w, Look Γ m w (fun a w' => P a ∧ ∀ l ∈ locks a, l ∈ w'.sess.held) anyError)
    (hf : ∀ a, P a → Safe Γ (locks a ++ ls) (f a)) : Safe Γ ls (m >>= f) := by
  intro w hopen hheld
  refine Body.look hΓ (hm w) fun a w1 h1 ⟨ha, hlocks⟩ => hf a ha w1 ?_ fun l hl => ?_
  · rw [h1.frames]
    exact hopen
  · rcases List.mem_append.mp hl with hl | hl
    · exact hlocks l hl
    · exact h1.held (hheld l hl)

/-- A safe handler. -/
theorem Safe.tryCatch (hΓ : Lawful Γ) {m : Prog S L E V α} {f : E → Prog S L E V α}
    (hm : Safe Γ ls m) (hf : ∀ e, Safe Γ ls (f e)) : Safe Γ ls (m.tryCatch f) :=
  fun w hopen hheld => Body.tryCatch hΓ (hm w hopen hheld) fun e _ h1 _ =>
    (hf e).after h1.toNear hopen hheld

/-- A query writes nothing. -/
theorem Safe.select (hΓ : Lawful Γ) (q : Stamp → S → α) :
    Safe Γ ls (Prog.select q : Prog S L E V α) :=
  Safe.of_look hΓ fun _ => Look.select anyError_faults q

/-- Nor does a lock. -/
theorem Safe.acquire (hΓ : Lawful Γ) (l : L) :
    Safe Γ ls (Prog.acquire l : Prog S L E V Unit) :=
  Safe.of_look hΓ fun _ => Look.acquire anyError_faults l

theorem Safe.fresh (hΓ : Lawful Γ) : Safe Γ ls (Prog.fresh : Prog S L E V Nat) :=
  Safe.of_look hΓ fun _ => Look.fresh

theorem Safe.raiseIf (hΓ : Lawful Γ) (c : Bool) (e : E) :
    Safe Γ ls (Prog.raiseIf c e : Prog S L E V Unit) :=
  Safe.of_look hΓ fun _ => Look.raiseIf hΓ fun _ => trivial

/-- An observation that is shown whatever it is of. -/
theorem Safe.observe (hΓ : Lawful Γ) (v : V)
    (h : ∀ now s, Γ.given v now s → Γ.shown v now s) :
    Safe Γ ls (Prog.observe v : Prog S L E V Unit) :=
  Safe.of_look hΓ fun _ => Look.observe fun _ _ hg => h _ _ hg

theorem Safe.ofAnswer (hΓ : Lawful Γ) (r : Except E α) :
    Safe Γ ls (Prog.ofAnswer r : Prog S L E V α) := by
  cases r with
  | ok a => exact Safe.ret hΓ a
  | error e => exact Safe.raise hΓ e

/-- Take some locks, and make a write that they allow. -/
theorem Safe.lockedWrite (hΓ : Lawful Γ) (ls' : List L) {f : S → S}
    (h : ∀ held, (∀ l ∈ ls, l ∈ held) → (∀ l ∈ ls', l ∈ held) → ∀ s, Γ.leave held s (f s)) :
    Safe Γ ls (Prog.acquireAll ls' >>= fun _ => Prog.write f : Prog S L E V Unit) := by
  intro w _ hheld
  refine Body.look hΓ (Look.acquireAll hΓ anyError_faults ls') fun _ w1 h1 hlocks => ?_
  refine (Body.write hΓ anyError_faults (h _ ?_ hlocks)).mono fun _ _ _ _ => trivial
  exact fun l hl => h1.held (hheld l hl)

/-- A transaction of safe statements. -/
theorem Safe.atomic (hΓ : Lawful Γ) {m : Prog S L E V α} (h : Safe Γ ls m) :
    Safe Γ ls (Prog.atomic m) := by
  intro w hopen hheld
  refine (Body.atomic (P := fun _ _ _ => True) hΓ anyError_faults hopen
    fun w' he => ?_).mono fun _ _ _ _ => trivial
  refine h _ (by rw [World.begin_frames]; exact List.cons_ne_nil _ _) fun l hl => ?_
  rw [World.begin_held, he.sess]
  exact hheld l hl

end Rules

/-! ## Two proofs about one program -/

/-- What two contexts show together is shown in the third. -/
structure Joins (Γ Γ' Γ'' : Ctx S L E V) : Prop where
  deferred : Γ.deferred = Γ''.deferred ∧ Γ'.deferred = Γ''.deferred
  fault : ∀ e, Γ''.fault e → Γ.fault e ∧ Γ'.fault e
  rely : ∀ held s s', Γ''.rely held s s' → Γ.rely held s s' ∧ Γ'.rely held s s'
  guar : ∀ held s s', Γ.guar held s s' → Γ'.guar held s s' → Γ''.guar held s s'
  given : ∀ v now s, Γ''.given v now s → Γ.given v now s ∧ Γ'.given v now s
  shown : ∀ v now s, Γ.shown v now s → Γ'.shown v now s → Γ''.shown v now s

/-- What others do in both contexts. -/
theorem Joins.env {Γ Γ' Γ'' : Ctx S L E V} (h : Joins Γ Γ' Γ'') {w w' : World S L V}
    (he : Env Γ'' w w') : Env Γ w w' ∧ Env Γ' w w' :=
  ⟨⟨he.sess, he.now, (h.rely _ _ _ he.db).1⟩, ⟨he.sess, he.now, (h.rely _ _ _ he.db).2⟩⟩

/-- **CONJUNCTION**. -/
theorem wp_both {Γ Γ' Γ'' : Ctx S L E V} (h : Joins Γ Γ' Γ'')
    {Q Q' : Except E α → World S L V → Prop} {m : Prog S L E V α} :
    ∀ {w : World S L V}, wp Γ m Q w → wp Γ' m Q' w →
      wp Γ'' m (fun r w' => Q r w' ∧ Q' r w') w := by
  induction m with
  | ret a => exact fun hq hq' => ⟨hq, hq'⟩
  | raise e => exact fun hq hq' => ⟨hq, hq'⟩
  | begin k ih =>
      exact fun hq hq' w' he => ih (hq w' (h.env he).1) (hq' w' (h.env he).2)
  | commit k ih =>
      intro w hq hq' w' he
      obtain ⟨hg, hk, hf⟩ := hq w' (h.env he).1
      obtain ⟨hg', hk', hf'⟩ := hq' w' (h.env he).2
      rw [h.deferred.1] at hg hk
      rw [h.deferred.2] at hg' hk'
      refine ⟨fun f hframe hd => h.guar _ _ _ (hg f hframe hd) (hg' f hframe hd),
        ih _ hk hk', fun e hfe => ?_⟩
      exact ih _ (hf e (h.fault e hfe).1) (hf' e (h.fault e hfe).2)
  | rollback k ih =>
      exact fun hq hq' w' he => ih (hq w' (h.env he).1) (hq' w' (h.env he).2)
  | lock l k ih =>
      intro w hq hq' w' he
      obtain ⟨hk, hf⟩ := hq w' (h.env he).1
      obtain ⟨hk', hf'⟩ := hq' w' (h.env he).2
      exact ⟨ih _ hk hk', fun e hfe =>
        ih _ (hf e (h.fault e hfe).1) (hf' e (h.fault e hfe).2)⟩
  | query k ih =>
      intro w hq hq' w' he
      obtain ⟨hk, hf⟩ := hq w' (h.env he).1
      obtain ⟨hk', hf'⟩ := hq' w' (h.env he).2
      exact ⟨ih _ hk hk', fun e hfe =>
        ih _ (hf e (h.fault e hfe).1) (hf' e (h.fault e hfe).2)⟩
  | update f k ih =>
      intro w hq hq' w' he
      obtain ⟨hk, hf⟩ := hq w' (h.env he).1
      obtain ⟨hk', hf'⟩ := hq' w' (h.env he).2
      exact ⟨ih _ hk hk', fun e hfe =>
        ih _ (hf e (h.fault e hfe).1) (hf' e (h.fault e hfe).2)⟩
  | choose k ih =>
      exact fun hq hq' w' he n => ih n (hq w' (h.env he).1 n) (hq' w' (h.env he).2 n)
  | mark v k ih =>
      intro w hq hq' w' he hv
      obtain ⟨hs, hk⟩ := hq w' (h.env he).1 (h.given _ _ _ hv).1
      obtain ⟨hs', hk'⟩ := hq' w' (h.env he).2 (h.given _ _ _ hv).2
      exact ⟨h.shown _ _ _ hs hs', ih hk hk'⟩

/-- A context joined with itself. -/
theorem joins_refl (Γ : Ctx S L E V) : Joins Γ Γ Γ where
  deferred := ⟨rfl, rfl⟩
  fault _ h := ⟨h, h⟩
  rely _ _ _ h := ⟨h, h⟩
  guar _ _ _ h _ := h
  given _ _ _ h := ⟨h, h⟩
  shown _ _ _ h _ := h

/-- **ATTEMPT**: a transaction whose caller goes on from either end of it, and may know that
    the body had an answer. -/
theorem wp_attempt {Γ : Ctx S L E V} {m : Prog S L E V α} {w : World S L V} {P : α → Prop}
    {Q : Except E (Outcome E α) → World S L V → Prop}
    (hanswer : ∀ w', Env Γ w w' → wp Γ m (fun r _ => ∀ a, r = .ok a → P a) w'.begin)
    (h : wp Γ (Prog.atomic m) (fun r w' => match r with
      | .ok a => Q (.ok (.kept a)) w'
      | .error e => ∀ answer, (∀ a, answer = some a → P a) → Q (.ok (.undone e answer)) w') w) :
    wp Γ (Prog.attempt m) Q w := by
  intro w' he
  refine wp_andThen (wp_mono ?_ (wp_both (joins_refl Γ) (hanswer w' he) (wp_of_andThen (h w' he))))
  rintro (e | a) w1 ⟨ha, hr⟩ w2 he2
  · exact hr w2 he2 none fun a ha' => nomatch ha'
  · have hanswered : ∀ b, some a = some b → P b := fun b hb => Option.some.inj hb ▸ ha a rfl
    obtain ⟨hg, hc, hf⟩ := hr w2 he2
    refine ⟨hg, ?_, fun e hfe => hf e hfe (some a) hanswered⟩
    cases hr1 : (w2.commit Γ.deferred).1 with
    | ok u =>
        rw [hr1] at hc
        exact hc
    | error e =>
        rw [hr1] at hc
        exact hc (some a) hanswered

/-! ## Frames -/

/-- The context that asks of the writes only that `W` holds of them. -/
def frame (deferred : S → S → Option E) (W : S → S → Prop) : Ctx S L E V where
  deferred := deferred
  fault := fun _ => True
  rely := fun _ _ _ => True
  leave := fun _ s s' => W s s'
  guar := fun _ _ _ => True

/-- A relation that holds of no write, and of two writes when it holds of each. -/
structure Composes (W : S → S → Prop) : Prop where
  refl : ∀ s, W s s
  trans : ∀ s s' s'', W s s' → W s' s'' → W s s''

/-- The frame of a relation of steps composes. -/
theorem frame_lawful (deferred : S → S → Option E) {W : S → S → Prop}
    (hW : Composes W) : Lawful (frame (L := L) (V := V) deferred W) where
  refl _ _ := trivial
  trans _ _ _ _ _ _ := trivial
  anti _ _ _ _ _ _ := trivial
  leave_refl _ := hW.refl
  leave_trans _ := hW.trans
  leave_mono _ _ _ _ _ h := h

/-- What keeps the frame keeps it in any context. -/
theorem frame_joins (Γ : Ctx S L E V) (W : S → S → Prop) :
    Joins Γ (frame Γ.deferred W) Γ where
  deferred := ⟨rfl, rfl⟩
  fault _ h := ⟨h, trivial⟩
  rely _ _ _ h := ⟨h, trivial⟩
  guar _ _ _ h _ := h
  given _ _ _ h := ⟨h, trivial⟩
  shown _ _ _ h _ := h

/-- **FRAME RULE**: what the writes of the text keep is kept by every run of it. -/
theorem Body.framed {Γ : Ctx S L E V} {m : Prog S L E V α} {w : World S L V}
    {P : α → World S L V → Prop} {F : E → Prop} {W : S → S → Prop}
    (h : Body Γ m w P F) {ls : List L} (hW : Safe (frame Γ.deferred W) ls m)
    (hopen : w.sess.frames ≠ []) (hheld : ∀ l ∈ ls, l ∈ w.sess.held) :
    Body Γ m w (fun a w' => P a w' ∧ ∀ s, W (w.sess.pend s) (w'.sess.pend s)) F := by
  refine wp_mono ?_ (wp_both (frame_joins Γ W) h (hW w hopen hheld))
  rintro (e | a) w' ⟨⟨hw, hr⟩, hw', -⟩
  · exact ⟨hw, hr⟩
  · exact ⟨hw, hr, hw'.leave⟩

/-! ## Between transactions -/

/-- The program runs whole transactions, one after the other. -/
def Top (Γ : Ctx S L E V) (m : Prog S L E V α) : Prop :=
  ∀ w : World S L V, Idle w → wp Γ m (fun _ w' => Idle w') w

section Top

variable {Γ : Ctx S L E V}

theorem Top.ret (a : α) : Top Γ (.ret a : Prog S L E V α) := fun _ hi => hi

theorem Top.raise (e : E) : Top Γ (.raise e : Prog S L E V α) := fun _ hi => hi

/-- Transactions one after the other. -/
theorem Top.bind {m : Prog S L E V α} {f : α → Prog S L E V β} (hm : Top Γ m)
    (hf : ∀ a, Top Γ (f a)) : Top Γ (m >>= f) := by
  intro w hi
  refine wp_bind (wp_mono ?_ (hm w hi))
  rintro (e | a) w' hi'
  · exact hi'
  · exact hf a w' hi'

/-- A handler between transactions. -/
theorem Top.tryCatch {m : Prog S L E V α} {f : E → Prog S L E V α} (hm : Top Γ m)
    (hf : ∀ e, Top Γ (f e)) : Top Γ (m.tryCatch f) := by
  intro w hi
  refine wp_tryCatch (wp_mono ?_ (hm w hi))
  rintro (e | a) w' hi'
  · exact hf e w' hi'
  · exact hi'

/-- A query outside of transactions. -/
theorem Top.select (q : Stamp → S → α) : Top Γ (Prog.select q : Prog S L E V α) :=
  fun _ hi _ he => ⟨hi.env he, fun _ _ => hi.env he⟩

theorem Top.fresh : Top Γ (Prog.fresh : Prog S L E V Nat) :=
  fun _ hi _ he _ => hi.env he

/-- An observation that is shown whatever it is of. -/
theorem Top.observe {v : V} (h : ∀ now s, Γ.given v now s → Γ.shown v now s) :
    Top Γ (Prog.observe v : Prog S L E V Unit) := by
  intro w hi w' he hv
  have hi' := hi.env he
  exact ⟨h _ _ hv, hi'.frames, hi'.pend, hi'.held⟩

theorem Top.raiseIf (c : Bool) (e : E) : Top Γ (Prog.raiseIf c e : Prog S L E V Unit) := by
  cases c with
  | true => exact Top.raise e
  | false => exact Top.ret ()

theorem Top.ofAnswer (r : Except E α) : Top Γ (Prog.ofAnswer r : Prog S L E V α) := by
  cases r with
  | ok a => exact Top.ret a
  | error e => exact Top.raise e

/-- A safe body is a transaction, when its writes may be committed. -/
theorem Top.atomic (hΓ : Lawful Γ) {m : Prog S L E V α} (h : Safe Γ [] m)
    (hguar : ∀ held s s', Γ.leave held s s' → Γ.guar held s s') :
    Top Γ (Prog.atomic m) := by
  intro w hi
  refine wp_transaction hΓ (P := fun _ _ _ => True) (F := anyError) hi
    (fun w' he => h _ ?_ fun _ hl => nomatch hl) anyError_faults (fun _ _ _ hidle _ _ => hidle) ?_
  · rw [World.begin_frames]
    exact List.cons_ne_nil _ _
  · intro w' a w1 w2 _ _ _ _ hleave
    exact ⟨fun _ => ⟨hguar _ _ _ hleave, publish_idle w2⟩, fun _ _ => trivial⟩

/-- The same for a body whose end is known, and still so at the commit. -/
theorem Top.atomicEnds (hΓ : Lawful Γ) {m : Prog S L E V α}
    {P : α → List L → S → (S → S) → Prop}
    (h : ∀ w : World S L V, w.sess.pend = id → w.sess.frames ≠ [] →
      Body Γ m w (fun a w' => P a w'.sess.held w'.db w'.sess.pend) anyError)
    (hnear : ∀ a f (w w' : World S L V), P a w.sess.held w.db f → Near Γ w w' →
      P a w'.sess.held w'.db f)
    (hguar : ∀ a held s f, Γ.leave held s (f s) → P a held s f → Γ.guar held s (f s)) :
    Top Γ (Prog.atomic m) := by
  intro w hi
  refine wp_transaction hΓ (F := anyError) hi (fun w' he => h _ ?_ ?_) anyError_faults
    (fun _ _ _ hidle _ _ => hidle) ?_
  · rw [World.begin_pend, he.sess]
    exact hi.pend
  · rw [World.begin_frames]
    exact List.cons_ne_nil _ _
  · intro w' a w1 w2 _ _ hp he2 hleave
    refine ⟨fun _ => ⟨hguar a _ _ _ hleave ?_, publish_idle w2⟩, fun _ _ => trivial⟩
    have hp2 := hnear a _ _ _ hp he2.still.toNear
    rw [he2.sess] at hp2 ⊢
    exact hp2

/-- The same, when what is committed also has to be what a frame allows. -/
theorem Top.atomicFramed (hΓ : Lawful Γ) {m : Prog S L E V α} {W : S → S → Prop} (h : Safe Γ [] m)
    (hW : Safe (frame Γ.deferred W) [] m)
    (hguar : ∀ held s s', Γ.leave held s s' → W s s' → Γ.guar held s s') :
    Top Γ (Prog.atomic m) := by
  intro w hi
  have hopen : ∀ w' : World S L V, w'.begin.sess.frames ≠ [] := fun w' => by
    rw [World.begin_frames]
    exact List.cons_ne_nil _ _
  refine wp_transaction hΓ (F := anyError) hi
    (fun w' _ => Body.framed (h _ (hopen w') fun _ hl => nomatch hl) hW (hopen w')
      fun _ hl => nomatch hl) anyError_faults
    (fun _ _ _ hidle _ _ => hidle) ?_
  intro w' a w1 w2 he _ hp he2 hleave
  refine ⟨fun _ => ⟨hguar _ _ _ hleave ?_, publish_idle w2⟩, fun _ _ => trivial⟩
  have hframe := hp.2 w2.db
  rw [World.begin_pend, he.sess, hi.pend] at hframe
  rw [show w2.view = w2.sess.pend w2.db from rfl, he2.sess]
  exact hframe

/-- A program between transactions that only looks. -/
theorem Top.look {m : Prog S L E V α} (h : Top Γ m) {w : World S L V} (hi : Idle w)
    {P : α → World S L V → Prop} {F : E → Prop} (hl : Look Γ m w P F) :
    wp Γ m (fun r w' => Idle w' ∧ ends P F r w') w :=
  wp_mono (fun _ _ hr => ⟨hr.1, hr.2.2⟩) (wp_both (joins_refl Γ) (h w hi) hl)

end Top

/-- A program goes on in a context with fewer others, as long as its own commits may be
    made there. -/
theorem Top.within {Γ' : Ctx S L E V} {m : Prog S L E V α} (h : Top Γ m) (hj : Joins Γ Γ Γ') :
    Top Γ' m :=
  fun w hi => wp_mono (fun _ _ hq => hq.1) (wp_both hj (h w hi) (h w hi))

/-- **RUNS OF TRANSACTIONS**: what every guaranteed commit keeps is kept from one
    configuration that the programs reach to every later one. -/
theorem top_onward [DecidableEq ι] {D : Database S L E} {Γ : ι → Ctx S L E V}
    (hfit : Fits D Γ) {prog : ι → Prog S L E V α} (hprog : ∀ i, Top (Γ i) (prog i))
    {I : S → Prop} (henv : ∀ s s', I s → D.env s s' → I s')
    (hguar : ∀ i held s s', I s → (Γ i).guar held s s' → I s')
    {s : S} {now : Nat} {c c' : Config ι S L E V α}
    (hr : Reaches D (Config.start s now prog) c) (hr' : Reaches D c c')
    (hgiven : AllSee (fun i => (Γ i).given) c') (h : I c.db) : I c'.db := by
  have hsup : Supported Γ (fun _ _ w => Idle w) (Config.start s now prog) :=
    supported_start hfit.lawful fun i => hprog i _ ⟨rfl, rfl, rfl⟩
  have hseen : AllSee (fun i => (Γ i).shown) (Config.start s now prog) := by
    intro i now' db v hm
    exact nomatch hm
  obtain ⟨ha, hs, hsh⟩ := sound hfit hr (locksApart_start D s now prog) hsup hseen
    (allSee_of_reaches hr' hgiven)
  exact store_invariant hfit henv hguar hr' ha hs hsh hgiven h

/-- The same from the start: it holds in every store reached. -/
theorem top_invariant [DecidableEq ι] {D : Database S L E} {Γ : ι → Ctx S L E V}
    (hfit : Fits D Γ) {prog : ι → Prog S L E V α} (hprog : ∀ i, Top (Γ i) (prog i))
    {I : S → Prop} (henv : ∀ s s', I s → D.env s s' → I s')
    (hguar : ∀ i held s s', I s → (Γ i).guar held s s' → I s')
    {s : S} {now : Nat} {c : Config ι S L E V α}
    (hr : Reaches D (Config.start s now prog) c)
    (hgiven : AllSee (fun i => (Γ i).given) c) (h : I s) : I c.db :=
  top_onward hfit hprog henv hguar (Reaches.refl D _) hr hgiven h

end TxnFrames
