import Mathlib.Logic.Function.Basic
import Marketplace.TxnBody
import Marketplace.TxnFrames
import Marketplace.TxnInvariants

/-! # Calls that have the database to themselves, any statement of which may fail

    With nobody else there, what a session sees is a store, and its statements are
    steps on that store: `Asks` for programs that only look, `Does` for programs inside
    a transaction, and `Performs` for whole calls.  An error of a body says which error
    it is; an error of a call also says what it leaves. -/

namespace TxnAlone

open TxnProgram TxnInterleaving TxnLogic TxnBody TxnFrames TxnInvariants TxnSoundness

variable {S L E V α β : Type} {D : Database S L E} {s : S} {F : E → Prop}

/-- The context: nobody else commits, and every commit is allowed. -/
abbrev solo (D : Database S L E) : Ctx S L E V := TxnInvariants.alone D fun _ _ => True

/-- With nobody else there is nothing to keep. -/
theorem solo_lawful (D : Database S L E) : Lawful (solo D : Ctx S L E V) :=
  TxnInvariants.alone_lawful D _

/-- Alone, nothing that is read changes what is seen. -/
theorem view_of_still {w w' : World S L V} (h : Still (solo D) w w') : w'.view = w.view := by
  have hdb : w'.db = w.db := h.db
  rw [World.view, World.view, h.pend, hdb]

/-- Alone, time passes and nothing else. -/
theorem view_of_env {w w' : World S L V} (h : Env (solo D) w w') : w'.view = w.view := by
  have hdb : w'.db = w.db := h.db
  rw [World.view, World.view, h.sess, hdb]

/-- `m` answers with `P`, looking at `s`, or fails with `F`. -/
def Asks (D : Database S L E) (m : Prog S L E V α) (s : S) (P : α → Prop) (F : E → Prop) :
    Prop :=
  ∀ w : World S L V, w.view = s → Look (solo D) m w (fun a _ => P a) F

/-- Inside a transaction that sees `s`, `m` answers and leaves `P`, or fails with `F`. -/
def Does (D : Database S L E) (m : Prog S L E V α) (s : S) (P : α → S → Prop)
    (F : E → Prop) : Prop :=
  ∀ w : World S L V, w.view = s → w.sess.frames ≠ [] →
    Body (solo D) m w (fun a w' => P a w'.view) F

/-- Called on `s`, `m` ends and leaves `P`. -/
def Performs (D : Database S L E) (m : Prog S L E V α) (s : S)
    (P : Except E α → S → Prop) : Prop :=
  ∀ w : World S L V, Idle w → w.db = s → wp (solo D) m (fun r w' => Idle w' ∧ P r w'.db) w

/-- The faults of the database are errors of `F`. -/
def FaultsOf (D : Database S L E) (F : E → Prop) : Prop := ∀ e, D.fault e → F e

/-! ## Looking -/

section Asking

variable {m : Prog S L E V α} {f : α → Prog S L E V β} {P : α → Prop} {Q : β → Prop}

/-- Less may be asked. -/
theorem Asks.mono {P' : α → Prop} (h : Asks D m s P F) (hP : ∀ a, P a → P' a) :
    Asks D m s P' F := fun w hw => (h w hw).mono fun a _ _ ha => hP a ha

theorem Asks.ret {a : α} (h : P a) : Asks D (.ret a : Prog S L E V α) s P F :=
  fun _ _ => Look.ret (solo_lawful D) h

theorem Asks.raise {e : E} (h : F e) : Asks D (.raise e : Prog S L E V α) s P F :=
  fun _ _ => Look.raise (solo_lawful D) h

/-- **SEQUENCING** of questions. -/
theorem Asks.bind (hm : Asks D m s P F) (hf : ∀ a, P a → Asks D (f a) s Q F) :
    Asks D (m >>= f) s Q F := by
  intro w hw
  refine Look.bind (solo_lawful D) (hm w hw) fun a w1 h1 ha => ?_
  exact hf a ha w1 ((view_of_still h1).trans hw)

/-- A query answers from the store. -/
theorem Asks.select (hF : FaultsOf D F) (q : Stamp → S → α) :
    Asks D (Prog.select q : Prog S L E V α) s (fun a => ∃ t, a = q t s) F := by
  intro w hw
  refine (Look.select (Γ := solo D) hF q).mono fun a w1 h1 ha => ⟨w1.stamp, ?_⟩
  rw [ha, view_of_still h1, hw]

/-- Locks are free. -/
theorem Asks.acquireAll (hF : FaultsOf D F) (ls : List L) :
    Asks D (Prog.acquireAll ls : Prog S L E V Unit) s (fun _ => True) F :=
  fun _ _ => (Look.acquireAll (solo_lawful D) hF ls).mono fun _ _ _ _ => trivial

theorem Asks.fresh : Asks D (Prog.fresh : Prog S L E V Nat) s (fun _ => True) F :=
  fun _ _ => Look.fresh

theorem Asks.raiseIf {c : Bool} {e : E} (h : c = true → F e) :
    Asks D (Prog.raiseIf c e : Prog S L E V Unit) s (fun _ => c = false) F :=
  fun _ _ => Look.raiseIf (solo_lawful D) h

theorem Asks.observe (v : V) :
    Asks D (Prog.observe v : Prog S L E V Unit) s (fun _ => True) F :=
  fun _ _ => (Look.observe fun _ _ _ => trivial).mono fun _ _ _ _ => trivial

/-- Handling an error of a program that only looks. -/
theorem Asks.tryCatch {G : E → Prop} {f : E → Prog S L E V α} (hm : Asks D m s P G)
    (hf : ∀ e, G e → Asks D (f e) s P F) : Asks D (m.tryCatch f) s P F := by
  intro w hw
  refine Look.tryCatch (solo_lawful D) (hm w hw) fun e w1 h1 he => ?_
  exact hf e he w1 ((view_of_still h1).trans hw)

end Asking

/-! ## Inside a transaction -/

section Doing

variable {m : Prog S L E V α} {f : α → Prog S L E V β} {P : α → S → Prop}
  {Q : β → S → Prop}

/-- Who asks changes nothing. -/
theorem Asks.does {P : α → Prop} (h : Asks D m s P F) :
    Does D m s (fun a s' => P a ∧ s' = s) F := by
  intro w hw _
  refine (Look.mono (h w hw) fun a w1 h1 ha => ?_).body (solo_lawful D)
  exact ⟨ha, (view_of_still h1).trans hw⟩

/-- Less may be said of what was done. -/
theorem Does.mono {P' : α → S → Prop} (h : Does D m s P F) (hP : ∀ a s', P a s' → P' a s') :
    Does D m s P' F := fun w hw ho => (h w hw ho).mono fun a w' _ ha => hP a w'.view ha

theorem Does.ret {a : α} (h : P a s) : Does D (.ret a : Prog S L E V α) s P F := by
  intro w hw _
  refine Body.ret (solo_lawful D) ?_
  rw [hw]
  exact h

theorem Does.raise {e : E} (h : F e) : Does D (.raise e : Prog S L E V α) s P F :=
  fun _ _ _ => Body.raise (solo_lawful D) h

/-- **SEQUENCING** of effects. -/
theorem Does.bind (hm : Does D m s P F) (hf : ∀ a s', P a s' → Does D (f a) s' Q F) :
    Does D (m >>= f) s Q F := by
  intro w hw ho
  refine Body.bind (solo_lawful D) (hm w hw ho) fun a w1 h1 ha => ?_
  refine hf a w1.view ha w1 rfl ?_
  rw [h1.frames]
  exact ho

/-- A program that only looks, and the rest. -/
theorem Does.look {P : α → Prop} (hm : Asks D m s P F) (hf : ∀ a, P a → Does D (f a) s Q F) :
    Does D (m >>= f) s Q F := by
  refine Does.bind hm.does fun a s' ⟨ha, hs⟩ => ?_
  rw [hs]
  exact hf a ha

/-- A write has its effect, or a fault has none. -/
theorem Does.write (hF : FaultsOf D F) (g : S → S) :
    Does D (Prog.write g : Prog S L E V Unit) s (fun _ s' => s' = g s) F := by
  intro w hw _
  refine (Body.write (solo_lawful D) hF fun _ => trivial).mono fun _ w1 h1 hp => ?_
  have hdb : w1.db = w.db := h1.db
  rw [World.view, hp, hdb]
  exact congrArg g hw

theorem release_view {w : World S L V} : w.release.view = w.view := rfl

/-- **SAVEPOINT**. -/
theorem Does.atomic (hF : FaultsOf D F) (hm : Does D m s P F) :
    Does D (Prog.atomic m) s P F := by
  intro w hw ho
  refine (Body.atomic (P := fun _ a w' => P a w'.view) (solo_lawful D) hF ho
    fun w' he => ?_).mono fun a w3 _ ⟨w', w1, w2, he, _, ha, he2, h3⟩ => ?_
  · refine hm w'.begin ((view_of_env he).trans hw) ?_
    rw [World.begin_frames]
    exact List.cons_ne_nil _ _
  · rw [h3, release_view, view_of_env he2]
    exact ha

/-- Handling an error whose writes so far do not matter. -/
theorem Does.tryCatch {f : E → Prog S L E V α} {G : E → Prop} (hm : Does D m s P G)
    (hf : ∀ e s', G e → Does D (f e) s' P F) : Does D (m.tryCatch f) s P F := by
  intro w hw ho
  refine Body.tryCatch (solo_lawful D) (hm w hw ho) fun e w1 h1 he => ?_
  refine hf e w1.view he w1 rfl ?_
  rw [h1.frames]
  exact ho

/-- **SAVEPOINT, HANDLED**: after an error the handler sees the store as it was. -/
theorem Does.catchAtomic {f : E → Prog S L E V α} {G : E → Prop} (hG : FaultsOf D G)
    (hm : Does D m s P G) (hf : ∀ e, G e → Does D (f e) s P F) :
    Does D ((Prog.atomic m).tryCatch f) s P F := by
  intro w hw ho
  refine Body.catchAtomic (P := fun _ a w' => P a w'.view) (solo_lawful D) ho hG
    (fun w' he => ?_) (fun w' a w1 w2 he _ ha he2 => ?_) fun e w1 h1 he => ?_
  · refine hm w'.begin ((view_of_env he).trans hw) ?_
    rw [World.begin_frames]
    exact List.cons_ne_nil _ _
  · rw [release_view, view_of_env he2]
    exact ha
  · refine hf e he w1 ((view_of_still h1).trans hw) ?_
    rw [h1.frames]
    exact ho

end Doing

/-! ## Calls -/

section Calls

variable {m : Prog S L E V α} {P P' : Except E α → S → Prop} {Q : Except E β → S → Prop}

theorem Performs.ret {a : α} (h : P (.ok a) s) :
    Performs D (.ret a : Prog S L E V α) s P := by
  intro w hi hw
  refine ⟨hi, ?_⟩
  rw [hw]
  exact h

theorem Performs.raise {e : E} (h : P (.error e) s) :
    Performs D (.raise e : Prog S L E V α) s P := by
  intro w hi hw
  refine ⟨hi, ?_⟩
  rw [hw]
  exact h

/-- **SEQUENCING** of commands: errors leave what they leave. -/
theorem Performs.bind {f : α → Prog S L E V β} (hm : Performs D m s P)
    (hf : ∀ a s', P (.ok a) s' → Performs D (f a) s' Q)
    (herr : ∀ e s', P (.error e) s' → Q (.error e) s') : Performs D (m >>= f) s Q := by
  intro w hi hw
  refine wp_bind (wp_mono ?_ (hm w hi hw))
  rintro (e | a) w1 ⟨hi1, hr⟩
  · exact ⟨hi1, herr e w1.db hr⟩
  · exact hf a w1.db hr w1 hi1 rfl

/-- **HANDLING**. -/
theorem Performs.tryCatch {f : E → Prog S L E V α} (hm : Performs D m s P)
    (hf : ∀ e s', P (.error e) s' → Performs D (f e) s' P')
    (hok : ∀ a s', P (.ok a) s' → P' (.ok a) s') : Performs D (m.tryCatch f) s P' := by
  intro w hi hw
  refine wp_tryCatch (wp_mono ?_ (hm w hi hw))
  rintro (e | a) w1 ⟨hi1, hr⟩
  · exact hf e w1.db hr w1 hi1 rfl
  · exact ⟨hi1, hok a w1.db hr⟩

/-- **TRANSACTION**: an error leaves the store as it was. -/
theorem Performs.atomic {R : α → S → Prop} (hF : FaultsOf D F) (hm : Does D m s R F)
    (hok : ∀ a s', R a s' → D.deferred s s' = none → P (.ok a) s')
    (herr : ∀ e, F e → P (.error e) s)
    (hdeferred : ∀ a s' e, R a s' → D.deferred s s' = some e → P (.error e) s) :
    Performs D (Prog.atomic m) s P := by
  intro w hi hw
  -- the deferred constraint raises what it raises
  refine wp_transaction (F := fun e => F e ∨ ∃ a s', R a s' ∧ D.deferred s s' = some e)
    (P := fun _ a w' => R a w'.view ∧ w'.db = s) (solo_lawful D) hi (fun w' he => ?_)
    (fun e hfe => Or.inl (hF e hfe)) (fun e w3 he hidle _ hdb => ⟨hidle, ?_⟩) ?_
  · have hdb : w'.db = s := Eq.trans he.db hw
    refine wp_mono ?_ (hm w'.begin ?_ ?_)
    · rintro (e | a) w1 ⟨hw1, hr⟩
      · exact ⟨hw1, Or.inl hr⟩
      · exact ⟨hw1, hr, Eq.trans hw1.db hdb⟩
    · rw [World.view, World.begin_pend, he.sess, hi.pend, World.begin_db, hdb]
      rfl
    · rw [World.begin_frames]
      exact List.cons_ne_nil _ _
  · have hs : w3.db = s := Eq.trans hdb hw
    rw [hs]
    rcases he with he | ⟨a, s', ha, hd⟩
    · exact herr e he
    · exact hdeferred a s' e ha hd
  · intro w' a w1 w2 he hw1 ⟨ha, hs1⟩ he2 _
    have hview : w2.view = w1.view := view_of_env he2
    have hdb : w2.db = s := Eq.trans he2.db hs1
    have hd : (solo D : Ctx S L E V).deferred w2.db w2.view = D.deferred s w1.view := by
      rw [hview, hdb]
      rfl
    refine ⟨fun hnone => ⟨trivial, publish_idle w2, ?_⟩, fun e hsome => ?_⟩
    · rw [hd] at hnone
      show P (.ok a) w2.view
      rw [hview]
      exact hok a w1.view ha hnone
    · rw [hd] at hsome
      exact Or.inr ⟨a, w1.view, ha, hsome⟩

/-- A statement outside of a transaction that only looks. -/
theorem Performs.select {q : Stamp → S → α} (h : ∀ t, P (.ok (q t s)) s)
    (hfault : ∀ e, D.fault e → P (.error e) s) :
    Performs D (Prog.select q : Prog S L E V α) s P := by
  intro w hi hw
  have hsame : ∀ w', Env (solo D) w w' → w'.view = s ∧ w'.db = s := by
    intro w' he
    have hdb : w'.db = w.db := he.db
    rw [World.view, he.sess, hi.pend, hdb, hw]
    exact ⟨rfl, rfl⟩
  intro w' he
  obtain ⟨hview, hdb⟩ := hsame w' he
  refine ⟨⟨hi.env he, ?_⟩, fun e hfe => ⟨hi.env he, ?_⟩⟩
  · rw [hdb, hview]
    exact h _
  · rw [hdb]
    exact hfault e hfe

/-- **CHECK**. -/
theorem Performs.raiseIf {c : Bool} {e : E} {P : Except E Unit → S → Prop}
    (hraise : c = true → P (.error e) s) (hgo : c = false → P (.ok ()) s) :
    Performs D (Prog.raiseIf c e : Prog S L E V Unit) s P := by
  cases c with
  | true => exact Performs.raise (hraise rfl)
  | false => exact Performs.ret (hgo rfl)

end Calls

/-! ## What a call returns -/

/-- Called on `s`, what `m` returns, if it does, is of `P`. -/
def Returns (D : Database S L E) (m : Prog S L E V α) (s : S) (P : α → Prop) : Prop :=
  ∀ w : World S L V, w.view = s → wp (solo D) m (fun r _ => ∀ a, r = .ok a → P a) w

section Returning

variable {m : Prog S L E V α} {f : α → Prog S L E V β} {P : α → Prop} {Q : β → Prop}

/-- Nothing is asked of a call. -/
theorem wp_any (m : Prog S L E V α) {Q : Except E α → World S L V → Prop}
    (hQ : ∀ r w, Q r w) (w : World S L V) : wp (solo D) m Q w := by
  induction m generalizing w with
  | ret a => exact hQ _ _
  | raise e => exact hQ _ _
  | begin k ih => exact fun _ _ => ih _
  | commit k ih => exact fun _ _ => ⟨fun _ _ _ => trivial, ih _ _, fun _ _ => ih _ _⟩
  | rollback k ih => exact fun _ _ => ih _
  | lock l k ih => exact fun _ _ => ⟨ih _ _, fun _ _ => ih _ _⟩
  | query k ih => exact fun _ _ => ⟨ih _ _, fun _ _ => ih _ _⟩
  | update g k ih => exact fun _ _ => ⟨ih _ _, fun _ _ => ih _ _⟩
  | choose k ih => exact fun _ _ n => ih n _
  | mark v k ih => exact fun _ _ _ => ⟨trivial, ih _⟩

/-- What is so whatever happens. -/
theorem Returns.of_fact (h : ∀ a, P a) : Returns D m s P :=
  fun w _ => wp_any m (fun _ _ _ _ => h _) w

theorem Returns.ret {a : α} (h : P a) : Returns D (.ret a : Prog S L E V α) s P := by
  rintro w hw x hx
  cases hx
  exact h

/-- A program that only looks, and the rest. -/
theorem Returns.look (hm : Asks D m s P F) (hf : ∀ a, P a → Returns D (f a) s Q) :
    Returns D (m >>= f) s Q := by
  intro w hw
  refine wp_bind (wp_mono ?_ (hm w hw))
  rintro (e | a) w1 ⟨h1, hr⟩
  · exact fun _ he => nomatch he
  · exact hf a hr w1 ((view_of_still h1).trans hw)

/-- What the first part needs to return, the whole needs. -/
theorem Returns.first {R : Prop} (hm : Returns D m s fun _ => R) :
    Returns D (m >>= f) s fun _ => R := by
  intro w hw
  refine wp_bind (wp_mono ?_ (hm w hw))
  rintro (e | a) w1 hr
  · exact fun _ he => nomatch he
  · exact wp_any (f a) (fun _ _ _ _ => hr a rfl) w1

/-- A transaction that returns has committed. -/
theorem Returns.atomic {R : Prop} (hm : Returns D m s fun _ => R) :
    Returns D (Prog.atomic m) s fun _ => R := by
  intro w hw w' he
  refine wp_andThen (wp_mono ?_ (hm w'.begin ((view_of_env he).trans hw)))
  rintro (e | a) w1 hr
  · exact fun _ _ _ hc => nomatch hc
  · exact wp_any _ (fun _ _ _ _ => hr a rfl) w1

/-- **SOUNDNESS**: what a call returned, in any run of it. -/
theorem Returns.run {now : Nat} {c : Config (Fin 1) S L E V α} (h : Returns D m s P)
    (hsymm : ∀ l x, D.conflict l x → D.conflict x l) (henv : ∀ s s', D.env s s' → s' = s)
    (hr : Reaches D (Config.start s now fun _ => m) c) {a : α} (he : c.prog 0 = .ret a) : P a := by
  have hfit : Fits D (fun _ : Fin 1 => (solo D : Ctx S L E V)) := fits_alone _ hsymm henv
  have hsup : Supported (fun _ : Fin 1 => (solo D : Ctx S L E V))
      (fun _ r _ => ∀ a, r = .ok a → P a) (Config.start s now fun _ => m) :=
    supported_start hfit.lawful fun _ => h _ rfl
  obtain ⟨w, -, hp⟩ := run_ended hfit hsup hr (fun _ _ _ _ _ => trivial) (r := .ok a) he
  exact hp a rfl

end Returning

/-! ## The run of a call -/

/-- **SOUNDNESS**: in every run of one session that calls `m`, what the call ends with and
    what it leaves is so. -/
theorem Performs.run {m : Prog S L E V α} {P : Except E α → S → Prop} {now : Nat}
    {c : Config (Fin 1) S L E V α} (h : Performs D m s P)
    (hsymm : ∀ l x, D.conflict l x → D.conflict x l) (henv : ∀ s s', D.env s s' → s' = s)
    (hr : Reaches D (Config.start s now fun _ => m) c) :
    (∀ a, c.prog 0 = .ret a → P (.ok a) c.db) ∧ ∀ e, c.prog 0 = .raise e → P (.error e) c.db := by
  have hfit : Fits D (fun _ : Fin 1 => (solo D : Ctx S L E V)) := fits_alone _ hsymm henv
  have hsup : Supported (fun _ : Fin 1 => (solo D : Ctx S L E V))
      (fun _ r w' => Idle w' ∧ P r w'.db) (Config.start s now fun _ => m) :=
    supported_start hfit.lawful fun _ => h _ ⟨rfl, rfl, rfl⟩ rfl
  have hgiven : AllSee (fun _ => (solo D : Ctx S L E V).given) c := fun _ _ _ _ _ => trivial
  have ended : ∀ r : Except E α, c.prog 0 = Prog.ofAnswer r → P r c.db := by
    intro r he
    obtain ⟨w, henv', -, hp⟩ := run_ended hfit hsup hr hgiven (r := r) he
    have hdb : c.db = w.db := henv'.db
    rw [hdb]
    exact hp
  exact ⟨fun a he => ended (.ok a) he, fun e he => ended (.error e) he⟩

end TxnAlone
