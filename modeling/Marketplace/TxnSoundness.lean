import Mathlib.Logic.Function.Basic
import Mathlib.Logic.Relation
import Marketplace.TxnLogic

/-! # Soundness of the rely-guarantee rules

    `sound`: when what a commit guarantees is within what every other session
    relies on, then in every interleaving each session stays supported by its
    `wp`, every commit is guaranteed, and every ghost observation is shown.
    `run_sound` is the same for a program that runs alone. -/

namespace TxnSoundness

open TxnProgram TxnInterleaving TxnLogic

variable {ι S L E V α : Type}

/-- Proof contexts, one for each session, fit a database: locks that do not
    conflict keep the commits of one session within what another relies on. -/
structure Fits (D : Database S L E) (Γ : ι → Ctx S L E V) : Prop where
  lawful : ∀ i, Lawful (Γ i)
  symm : ∀ l x, D.conflict l x → D.conflict x l
  deferred : ∀ i, (Γ i).deferred = D.deferred
  fault : ∀ i e, D.fault e → (Γ i).fault e
  env : ∀ i held s s', D.env s s' → (Γ i).rely held s s'
  guar : ∀ i j held held' s s', i ≠ j →
    (∀ l ∈ held', ∀ x ∈ held, ¬ D.conflict l x) →
    (Γ i).guar held' s s' → (Γ j).rely held s s'

/-- Every observation of a history satisfies `P`. -/
def Sees (P : V → Nat → S → Prop) (h : List (Event S V)) : Prop :=
  ∀ now db v, Event.marked now db v ∈ h → P v now db

theorem Sees.tail {P : V → Nat → S → Prop} {h h' : List (Event S V)}
    (hs : Sees P h') (hsub : h ⊆ h') : Sees P h :=
  fun now db v hm => hs now db v (hsub hm)

/-- Each session is supported: its remaining program meets its postcondition from a
    world that others may have changed since. -/
def Supported (Γ : ι → Ctx S L E V)
    (Q : ι → Except E α → World S L V → Prop) (c : Config ι S L E V α) : Prop :=
  ∀ i, ∃ w, Env (Γ i) w (c.world i) ∧ wp (Γ i) (c.prog i) (Q i) w

/-- Every session observed only what its predicate admits. -/
def AllSee (P : ι → V → Nat → S → Prop) (c : Config ι S L E V α) : Prop :=
  ∀ i, Sees (P i) (c.sess i).hist

/-- **LOCAL STEP**: one statement keeps a session supported; if it changed the store
    it was a guaranteed commit. -/
theorem wp_localStep {D : Database S L E} {Γ : Ctx S L E V}
    (hdef : Γ.deferred = D.deferred) (hfault : ∀ e, D.fault e → Γ.fault e)
    {m m' : Prog S L E V α} {w0 w w' : World S L V}
    {Q : Except E α → World S L V → Prop}
    (hs : LocalStep D (m, w) (m', w')) (he : Env Γ w0 w) (hwp : wp Γ m Q w0)
    (hgiven : Sees Γ.given w'.sess.hist) (hshown : Sees Γ.shown w.sess.hist) :
    wp Γ m' Q w' ∧ Sees Γ.shown w'.sess.hist ∧
      (w'.db = w.db ∨ Γ.guar w.sess.held w.db w'.db) := by
  cases hs with
  | begin => exact ⟨hwp w he, hshown, Or.inl rfl⟩
  | commit =>
      obtain ⟨hg, hk, -⟩ := hwp w he
      rw [← hdef]
      refine ⟨hk, ?_⟩
      -- only an accepted commit of the outermost frame changes the store
      rcases commit_cases Γ.deferred w with ⟨-, hc⟩ | ⟨f, hf, hd, hc⟩ | ⟨f, e, -, -, hc⟩ |
          ⟨f, g, fs, -, hc⟩
      · rw [hc]
        exact ⟨hshown, Or.inl rfl⟩
      · rw [hc]
        refine ⟨fun now db v hm => ?_, Or.inr (hg f hf hd)⟩
        rcases List.mem_cons.mp hm with heq | hm
        · exact nomatch heq
        · exact hshown now db v hm
      · rw [hc]
        refine ⟨?_, Or.inl (World.rollback_db w)⟩
        rw [World.rollback_hist]
        exact hshown
      · rw [hc]
        exact ⟨hshown, Or.inl rfl⟩
  | commitFault _ _ e hfe =>
      refine ⟨(hwp w he).2.2 _ (hfault _ hfe), ?_, Or.inl (World.rollback_db w)⟩
      rw [World.rollback_hist]
      exact hshown
  | rollback =>
      refine ⟨hwp w he, ?_, Or.inl (World.rollback_db w)⟩
      rw [World.rollback_hist]
      exact hshown
  | lock => exact ⟨(hwp w he).1, hshown, Or.inl rfl⟩
  | lockFault _ _ _ e hfe =>
      exact ⟨(hwp _ he).2 _ (hfault _ hfe), hshown, Or.inl rfl⟩
  | query => exact ⟨(hwp w he).1, hshown, Or.inl rfl⟩
  | queryFault _ _ e hfe =>
      exact ⟨(hwp _ he).2 _ (hfault _ hfe), hshown, Or.inl rfl⟩
  | update => exact ⟨(hwp w he).1, hshown, Or.inl rfl⟩
  | updateFault _ _ _ e hfe =>
      exact ⟨(hwp _ he).2 _ (hfault _ hfe), hshown, Or.inl rfl⟩
  | choose _ _ n => exact ⟨hwp w he n, hshown, Or.inl rfl⟩
  | mark v =>
      obtain ⟨hsh, hk⟩ := hwp w he (hgiven w.now w.db v List.mem_cons_self)
      refine ⟨hk, ?_, Or.inl rfl⟩
      intro now db u hm
      rcases List.mem_cons.mp hm with heq | hm
      · cases heq
        exact hsh
      · exact hshown now db u hm

/-- The clock moves between statements, not inside one. -/
theorem now_localStep {D : Database S L E} {m m' : Prog S L E V α}
    {w w' : World S L V} (hs : LocalStep D (m, w) (m', w')) : w'.now = w.now := by
  cases hs with
  | commit =>
      rcases commit_cases D.deferred w with ⟨-, hc⟩ | ⟨f, -, -, hc⟩ | ⟨f, e, -, -, hc⟩ |
          ⟨f, g, fs, -, hc⟩
      · rw [hc]
      · rw [hc]
        rfl
      · rw [hc]
        exact World.rollback_now w
      · rw [hc]
        rfl
  | commitFault => exact World.rollback_now w
  | rollback => exact World.rollback_now w
  | _ => rfl

/-- A statement only adds to the history. -/
theorem hist_localStep {D : Database S L E} {m m' : Prog S L E V α}
    {w w' : World S L V} (hs : LocalStep D (m, w) (m', w')) :
    w.sess.hist ⊆ w'.sess.hist := by
  have hback : w.sess.hist ⊆ w.rollback.sess.hist := by
    rw [World.rollback_hist]
    exact fun _ h => h
  cases hs with
  | begin => exact fun _ h => h
  | commit =>
      rcases commit_cases D.deferred w with ⟨-, hc⟩ | ⟨f, -, -, hc⟩ | ⟨f, e, -, -, hc⟩ |
          ⟨f, g, fs, -, hc⟩
      · rw [hc]
        exact fun _ h => h
      · rw [hc]
        exact fun _ h => List.mem_cons_of_mem _ h
      · rw [hc]
        exact hback
      · rw [hc]
        exact fun _ h => h
  | commitFault => exact hback
  | rollback => exact hback
  | mark => exact fun _ h => List.mem_cons_of_mem _ h
  | _ => exact fun _ h => h

/-- A statement changes the store by a commit only, which its session records. -/
theorem commits_localStep {D : Database S L E} {m m' : Prog S L E V α}
    {w w' : World S L V} (hs : LocalStep D (m, w) (m', w')) :
    (w'.db = w.db ∧ commitsOf w'.sess.hist = commitsOf w.sess.hist) ∨
      commitsOf w'.sess.hist = (w.db, w'.db) :: commitsOf w.sess.hist := by
  have hback : w.rollback.db = w.db ∧
      commitsOf w.rollback.sess.hist = commitsOf w.sess.hist := by
    rw [World.rollback_hist]
    exact ⟨World.rollback_db w, rfl⟩
  cases hs with
  | commit =>
      rcases commit_cases D.deferred w with ⟨-, hc⟩ | ⟨f, -, -, hc⟩ | ⟨f, e, -, -, hc⟩ |
          ⟨f, g, fs, -, hc⟩
      · rw [hc]
        exact Or.inl ⟨rfl, rfl⟩
      · rw [hc]
        exact Or.inr rfl
      · rw [hc]
        exact Or.inl hback
      · rw [hc]
        exact Or.inl ⟨rfl, rfl⟩
  | commitFault => exact Or.inl hback
  | rollback => exact Or.inl hback
  | _ => exact Or.inl ⟨rfl, rfl⟩

section Interleaved

variable [DecidableEq ι] {D : Database S L E} {Γ : ι → Ctx S L E V}
  {Q : ι → Except E α → World S L V → Prop}

theorem allSee_of_step {P : ι → V → Nat → S → Prop} {c c' : Config ι S L E V α}
    {who : Option ι} (hs : Step D who c c') (h : AllSee P c') : AllSee P c := by
  cases hs with
  | tick _ t ht => exact h
  | env _ s hs => exact h
  | session _ i m w hloc hfree =>
      intro j
      by_cases hj : j = i
      · subst hj
        refine (h j).tail ?_
        have hh := hist_localStep hloc
        simp only [Config.put, Function.update_self]
        exact hh
      · have := h j
        simp only [Config.put, Function.update_of_ne hj] at this
        exact this

theorem allSee_of_reaches {P : ι → V → Nat → S → Prop} {c c' : Config ι S L E V α}
    (hr : Reaches D c c') (h : AllSee P c') : AllSee P c := by
  induction hr with
  | refl => exact h
  | tail _ hs ih =>
      obtain ⟨who, hs⟩ := hs
      exact ih (allSee_of_step hs h)

/-- What a step does to the commits of a session. -/
theorem commits_step {D : Database S L E} {c c' : Config ι S L E V α} {who : Option ι}
    (hs : Step D who c c') (i : ι) :
    ((who = some i → c'.db = c.db) ∧
      commitsOf (c'.sess i).hist = commitsOf (c.sess i).hist) ∨
    (who = some i ∧
      commitsOf (c'.sess i).hist = (c.db, c'.db) :: commitsOf (c.sess i).hist) := by
  cases hs with
  | tick _ t ht => exact Or.inl ⟨fun h => (nomatch h), rfl⟩
  | env _ s hs => exact Or.inl ⟨fun h => (nomatch h), rfl⟩
  | session _ j m w hloc hfree =>
      by_cases hj : j = i
      · subst hj
        have hsess : (c.put j m w).sess j = w.sess := Function.update_self ..
        rw [hsess]
        rcases commits_localStep hloc with ⟨hdb, hc⟩ | hc
        · exact Or.inl ⟨fun _ => hdb, hc⟩
        · exact Or.inr ⟨rfl, hc⟩
      · have hsess : (c.put j m w).sess i = c.sess i :=
          Function.update_of_ne (fun e => hj e.symm) ..
        rw [hsess]
        exact Or.inl ⟨fun h => absurd (Option.some.inj h) hj, rfl⟩

/-- A step leaves the commits of the other sessions alone. -/
theorem commits_other {D : Database S L E} {c c' : Config ι S L E V α} {who : Option ι}
    (hs : Step D who c c') {j : ι} (hj : who ≠ some j) :
    commitsOf (c'.sess j).hist = commitsOf (c.sess j).hist := by
  rcases commits_step hs j with ⟨-, hc⟩ | ⟨h, -⟩
  · exact hc
  · exact absurd h hj

/-- **COMMITS ARE STEPS**: a commit that a session records is a step of the run. -/
theorem commit_reached {D : Database S L E} {c c' : Config ι S L E V α}
    (hr : Reaches D c c') {i : ι} (hnone : commitsOf (c.sess i).hist = []) {s s' : S}
    (h : (s, s') ∈ commitsOf (c'.sess i).hist) :
    ∃ d d', Reaches D c d ∧ Step D (some i) d d' ∧ Reaches D d' c' ∧ d.db = s ∧
      d'.db = s' := by
  induction hr with
  | refl =>
      rw [hnone] at h
      exact nomatch h
  | tail hr hs ih =>
      obtain ⟨who, hs⟩ := hs
      rcases commits_step hs i with ⟨-, hc⟩ | ⟨rfl, hc⟩
      · rw [hc] at h
        obtain ⟨d, d', h1, h2, h3, h4⟩ := ih h
        exact ⟨d, d', h1, h2, h3.step hs, h4⟩
      · rw [hc] at h
        rcases List.mem_cons.mp h with heq | h
        · cases heq
          exact ⟨_, _, hr, hs, Reaches.refl D _, rfl, rfl⟩
        · obtain ⟨d, d', h1, h2, h3, h4⟩ := ih h
          exact ⟨d, d', h1, h2, h3.step hs, h4⟩

/-- A statement records no observation but of the present moment. -/
theorem mark_localStep {D : Database S L E} {m m' : Prog S L E V α} {w w' : World S L V}
    (hs : LocalStep D (m, w) (m', w')) {now : Nat} {db : S} {v : V}
    (h : Event.marked now db v ∈ w'.sess.hist) :
    Event.marked now db v ∈ w.sess.hist ∨ now = w.now ∧ db = w.db ∧ w'.db = w.db := by
  cases hs with
  | commit =>
      rcases commit_cases D.deferred w with ⟨-, hc⟩ | ⟨f, -, -, hc⟩ | ⟨f, e, -, -, hc⟩ |
          ⟨f, g, fs, -, hc⟩
      · rw [hc] at h
        exact Or.inl h
      · rw [hc] at h
        rcases List.mem_cons.mp h with heq | h
        · exact nomatch heq
        · exact Or.inl h
      · rw [hc, World.rollback_hist] at h
        exact Or.inl h
      · rw [hc] at h
        exact Or.inl h
  | commitFault =>
      rw [World.rollback_hist] at h
      exact Or.inl h
  | rollback =>
      rw [World.rollback_hist] at h
      exact Or.inl h
  | mark v =>
      rcases List.mem_cons.mp h with heq | h
      · cases heq
        exact Or.inr ⟨rfl, rfl, rfl⟩
      · exact Or.inl h
  | _ => exact Or.inl h

/-- A step of the system records no observation but of the moment it is taken at. -/
theorem mark_step {D : Database S L E} {c c' : Config ι S L E V α} {who : Option ι}
    (hs : Step D who c c') {i : ι} {now : Nat} {db : S} {v : V}
    (h : Event.marked now db v ∈ (c'.sess i).hist) :
    Event.marked now db v ∈ (c.sess i).hist ∨ now = c.now ∧ db = c.db ∧ c'.db = c.db := by
  cases hs with
  | tick _ t ht => exact Or.inl h
  | env _ s hs => exact Or.inl h
  | session _ j m w hloc hfree =>
      by_cases hj : j = i
      · subst hj
        simp only [Config.put, Function.update_self] at h
        exact mark_localStep hloc h
      · simp only [Config.put, Function.update_of_ne (fun e => hj e.symm)] at h
        exact Or.inl h

/-- The clock does not go back. -/
theorem now_step {D : Database S L E} {c c' : Config ι S L E V α} {who : Option ι}
    (hs : Step D who c c') : c.now ≤ c'.now := by
  cases hs with
  | tick _ t ht => exact ht
  | env _ s hs => exact Nat.le_refl _
  | session _ j m w hloc hfree => exact Nat.le_refl _

theorem now_reaches {D : Database S L E} {c c' : Config ι S L E V α} (hr : Reaches D c c') :
    c.now ≤ c'.now := by
  induction hr with
  | refl => exact Nat.le_refl _
  | tail _ hs ih =>
      obtain ⟨who, hs⟩ := hs
      exact Nat.le_trans ih (now_step hs)

/-- **OBSERVATIONS ARE MOMENTS**: the store that a session observed since then is a store of
    the run since then. -/
theorem mark_since {D : Database S L E} {c c' : Config ι S L E V α}
    (hr : Reaches D c c') {i : ι} {now : Nat} {db : S} {v : V}
    (h : Event.marked now db v ∈ (c'.sess i).hist) :
    Event.marked now db v ∈ (c.sess i).hist ∨
      ∃ d, Reaches D c d ∧ Reaches D d c' ∧ d.db = db := by
  induction hr with
  | refl => exact Or.inl h
  | @tail b c' hr hs ih =>
      obtain ⟨who, hs⟩ := hs
      rcases mark_step hs h with h | ⟨-, rfl, hdb⟩
      · rcases ih h with hold | ⟨d, h1, h2, hd⟩
        · exact Or.inl hold
        · exact Or.inr ⟨d, h1, h2.step hs, hd⟩
      · exact Or.inr ⟨_, Reaches.step hr hs, Reaches.refl D _, hdb⟩

theorem mark_reached {D : Database S L E} {c c' : Config ι S L E V α}
    (hr : Reaches D c c') {i : ι} (hnone : (c.sess i).hist = []) {now : Nat} {db : S} {v : V}
    (h : Event.marked now db v ∈ (c'.sess i).hist) :
    ∃ d, Reaches D c d ∧ Reaches D d c' ∧ d.db = db := by
  rcases mark_since hr h with hold | hd
  · rw [hnone] at hold
    exact nomatch hold
  · exact hd

/-- **STEP LEMMA**: a step of the system keeps every session supported. -/
theorem supported_step (hfit : Fits D Γ) {c c' : Config ι S L E V α} {who : Option ι}
    (hs : Step D who c c') (hapart : LocksApart D c) (hsup : Supported Γ Q c)
    (hgiven : AllSee (fun i => (Γ i).given) c') (hshown : AllSee (fun i => (Γ i).shown) c) :
    Supported Γ Q c' ∧ AllSee (fun i => (Γ i).shown) c' := by
  cases hs with
  | tick _ t ht =>
      refine ⟨fun i => ?_, hshown⟩
      obtain ⟨w, he, hwp⟩ := hsup i
      exact ⟨w, ⟨he.sess, Nat.le_trans he.now ht, he.db⟩, hwp⟩
  | env _ s hs =>
      refine ⟨fun i => ?_, hshown⟩
      obtain ⟨w, he, hwp⟩ := hsup i
      exact ⟨w, he.trans (hfit.lawful i) ⟨rfl, Nat.le_refl _, hfit.env i _ _ _ hs⟩, hwp⟩
  | session _ i m w hloc hfree =>
      obtain ⟨w0, he, hwp⟩ := hsup i
      have hgi : Sees (Γ i).given w.sess.hist := by
        have := hgiven i
        simp only [Config.put, Function.update_self] at this
        exact this
      -- the session that moves keeps its support, and the others rely on what it does
      obtain ⟨hm, hsh, hdb⟩ := wp_localStep (hfit.deferred i) (hfit.fault i) hloc he hwp hgi
        (hshown i)
      constructor
      · intro j
        by_cases hj : j = i
        · subst hj
          refine ⟨w, ?_, ?_⟩
          · refine ⟨?_, ?_, (hfit.lawful j).refl _ _⟩
            · show Function.update c.sess j w.sess j = w.sess
              exact Function.update_self ..
            · show w.now ≤ c.now
              exact Nat.le_of_eq (now_localStep hloc)
          · show wp (Γ j) (Function.update c.prog j m j) (Q j) w
            rw [Function.update_self]
            exact hm
        · obtain ⟨wj, hej, hwpj⟩ := hsup j
          refine ⟨wj, hej.trans (hfit.lawful j) ⟨?_, Nat.le_refl _, ?_⟩, ?_⟩
          · show Function.update c.sess i w.sess j = c.sess j
            exact Function.update_of_ne hj ..
          · show (Γ j).rely (c.sess j).held c.db w.db
            rcases hdb with hdb | hdb
            · rw [hdb]
              exact (hfit.lawful j).refl _ _
            · refine hfit.guar i j _ _ _ _ (fun e => hj e.symm) ?_ hdb
              exact fun l hl x hx => hapart i j (fun e => hj e.symm) l hl x hx
          · show wp (Γ j) (Function.update c.prog i m j) (Q j) wj
            rw [Function.update_of_ne hj]
            exact hwpj
      · intro j
        by_cases hj : j = i
        · subst hj
          show Sees (Γ j).shown (Function.update c.sess j w.sess j).hist
          rw [Function.update_self]
          exact hsh
        · show Sees (Γ j).shown (Function.update c.sess i w.sess j).hist
          rw [Function.update_of_ne hj]
          exact hshown j

/-- **SOUNDNESS**: in every configuration reached the locks are apart and every
    session is supported, given what is given of the observations so far. -/
theorem sound (hfit : Fits D Γ) {c c' : Config ι S L E V α} (hr : Reaches D c c')
    (hapart : LocksApart D c) (hsup : Supported Γ Q c) (hshown : AllSee (fun i => (Γ i).shown) c)
    (hgiven : AllSee (fun i => (Γ i).given) c') :
    LocksApart D c' ∧ Supported Γ Q c' ∧ AllSee (fun i => (Γ i).shown) c' := by
  induction hr with
  | refl => exact ⟨hapart, hsup, hshown⟩
  | tail _ hs ih =>
      obtain ⟨who, hs⟩ := hs
      obtain ⟨ha, hsu, hsh⟩ := ih (allSee_of_step hs hgiven)
      exact ⟨locksApart_step hfit.symm ha hs, supported_step hfit hs ha hsu hgiven hsh⟩

/-- A step of a supported system that changes the store is the clock's, the outside
    world's, or a guaranteed commit. -/
theorem guar_of_step (hfit : Fits D Γ) {c c' : Config ι S L E V α} {i : ι}
    (hs : Step D (some i) c c') (hsup : Supported Γ Q c) (hshown : AllSee (fun i => (Γ i).shown) c)
    (hgiven : AllSee (fun i => (Γ i).given) c') :
    c'.db = c.db ∨ (Γ i).guar (c.sess i).held c.db c'.db := by
  cases hs with
  | session _ _ m w hloc hfree =>
      obtain ⟨w0, he, hwp⟩ := hsup i
      have hgi : Sees (Γ i).given w.sess.hist := by
        have := hgiven i
        simp only [Config.put, Function.update_self] at this
        exact this
      exact (wp_localStep (hfit.deferred i) (hfit.fault i) hloc he hwp hgi (hshown i)).2.2

/-- **STORE INVARIANT**: what every guaranteed commit keeps holds in every store
    reached. -/
theorem store_invariant (hfit : Fits D Γ) {I : S → Prop}
    (henv : ∀ s s', I s → D.env s s' → I s')
    (hguar : ∀ i held s s', I s → (Γ i).guar held s s' → I s')
    {c c' : Config ι S L E V α} (hr : Reaches D c c') (hapart : LocksApart D c)
    (hsup : Supported Γ Q c) (hshown : AllSee (fun i => (Γ i).shown) c)
    (hgiven : AllSee (fun i => (Γ i).given) c') (h : I c.db) : I c'.db := by
  induction hr with
  | refl => exact h
  | tail hr hs ih =>
      obtain ⟨who, hs⟩ := hs
      have hgiven' := allSee_of_step hs hgiven
      have hi := ih hgiven'
      cases who with
      | none =>
          cases hs with
          | tick _ t ht => exact hi
          | env _ s he => exact henv _ _ hi he
      | some i =>
          obtain ⟨-, hsu, hsh⟩ := sound hfit hr hapart hsup hshown hgiven'
          rcases guar_of_step hfit hs hsu hsh hgiven with hdb | hg
          · rw [hdb]
            exact hi
          · exact hguar i _ _ _ hi hg

omit [DecidableEq ι] in
/-- A system started with every session idle is supported. -/
theorem supported_start (hΓ : ∀ i, Lawful (Γ i)) {s : S} {now : Nat}
    {prog : ι → Prog S L E V α} (h : ∀ i, wp (Γ i) (prog i) (Q i) ⟨s, now, {}⟩) :
    Supported Γ Q (Config.start s now prog) :=
  fun i => ⟨⟨s, now, {}⟩, Env.refl (hΓ i) _, h i⟩

end Interleaved

/-! ## Programs run alone -/

/-- The context of a program that has the database to itself. -/
def alone (deferred : S → S → Option E) : Ctx S L E V where
  deferred := deferred
  fault := fun _ => False
  rely := fun _ s s' => s' = s
  guar := fun _ _ _ => True

theorem alone_lawful (deferred : S → S → Option E) :
    Lawful (alone (L := L) (V := V) deferred) where
  refl _ _ := rfl
  trans _ _ _ _ h h' := h'.trans h
  anti _ _ _ _ _ h := h
  leave_refl _ _ := trivial
  leave_trans _ _ _ _ _ _ := trivial
  leave_mono _ _ _ _ _ _ := trivial

/-- **SOUNDNESS, ALONE**: the run of a program meets its postcondition. -/
theorem run_sound {deferred : S → S → Option E} {m : Prog S L E V α}
    {Q : Except E α → World S L V → Prop} :
    ∀ {w : World S L V} (ids : Nat → Nat), wp (alone deferred) m Q w →
      Q (m.run deferred ids w).1 (m.run deferred ids w).2 := by
  have hrefl := fun w : World S L V => Env.refl (alone_lawful (L := L) (V := V) deferred) w
  induction m with
  | ret a => exact fun _ h => h
  | raise e => exact fun _ h => h
  | begin k ih => exact fun ids h => ih ids (h _ (hrefl _))
  | commit k ih => exact fun ids h => ih _ ids (h _ (hrefl _)).2.1
  | rollback k ih => exact fun ids h => ih ids (h _ (hrefl _))
  | lock l k ih => exact fun ids h => ih _ ids (h _ (hrefl _)).1
  | query k ih => exact fun ids h => ih _ ids (h _ (hrefl _)).1
  | update f k ih => exact fun ids h => ih _ ids (h _ (hrefl _)).1
  | choose k ih => exact fun ids h => ih _ _ (h _ (hrefl _) _)
  | mark v k ih => exact fun ids h => ih ids (h _ (hrefl _) trivial).2

end TxnSoundness
