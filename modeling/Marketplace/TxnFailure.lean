import Marketplace.TxnInterleaving

/-! # Statements whose failure ends the call

    A program handles the errors of its statements where it likes.  That a write of some
    kind is not handled away is a fact about the tree of the program: `Fatal`.  Wherever
    such a write fails, what is left of the program only rolls back and raises. -/

namespace TxnFailure

open TxnProgram TxnInterleaving

variable {ι S L E V α β : Type} {D : Database S L E} {W : (S → S) → Prop} {P Q : E → Prop}

/-- What is left only rolls back, and raises an error of `P`. -/
inductive Doomed (P : E → Prop) : Prog S L E V α → Prop where
  | raise {e : E} (h : P e) : Doomed P (.raise e)
  | rollback {k : Prog S L E V α} (h : Doomed P k) : Doomed P (.rollback k)

/-- Wherever a write of `W` fails in `m`, what is left of it raises an error of `P`. -/
def Fatal (W : (S → S) → Prop) (P : E → Prop) : Prog S L E V α → Prop
  | .ret _ => True
  | .raise _ => True
  | .begin k => Fatal W P k
  | .commit k => ∀ r, Fatal W P (k r)
  | .rollback k => Fatal W P k
  | .lock _ k => ∀ r, Fatal W P (k r)
  | .query k => ∀ r, Fatal W P (k r)
  | .update f k => (W f → ∀ e, Doomed P (k (.error e))) ∧ ∀ r, Fatal W P (k r)
  | .choose k => ∀ n, Fatal W P (k n)
  | .mark _ k => Fatal W P k

/-! ## Rules -/

section Rules

variable {m : Prog S L E V α}

/-- What follows a doomed part is doomed, if every error of it is. -/
theorem Doomed.andThen {f : Except E α → Prog S L E V β} (h : Doomed P m)
    (hf : ∀ e, P e → Doomed Q (f (.error e))) : Doomed Q (m.andThen f) := by
  induction h with
  | raise he => exact hf _ he
  | rollback _ ih => exact .rollback ih

/-- Where the errors of a fatal part doom what follows, and what follows is fatal, all is. -/
theorem Fatal.andThen {f : Except E α → Prog S L E V β} (hm : Fatal W P m)
    (hd : ∀ e, P e → Doomed Q (f (.error e))) (hf : ∀ r, Fatal W Q (f r)) :
    Fatal W Q (m.andThen f) := by
  induction m with
  | ret a => exact hf (.ok a)
  | raise e => exact hf (.error e)
  | begin k ih => exact ih hm
  | commit k ih => exact fun r => ih r (hm r)
  | rollback k ih => exact ih hm
  | lock l k ih => exact fun r => ih r (hm r)
  | query k ih => exact fun r => ih r (hm r)
  | update g k ih => exact ⟨fun hg e => (hm.1 hg e).andThen hd, fun r => ih r (hm.2 r)⟩
  | choose k ih => exact fun n => ih n (hm n)
  | mark v k ih => exact ih hm

/-- A return has no write that could fail. -/
theorem Fatal.ret (a : α) : Fatal W P (.ret a : Prog S L E V α) := trivial

/-- An exception has no write that could fail. -/
theorem Fatal.raise (e : E) : Fatal W P (.raise e : Prog S L E V α) := trivial

/-- **SEQUENCING**: two fatal parts make a fatal whole. -/
theorem Fatal.bind {f : α → Prog S L E V β} (hm : Fatal W P m) (hf : ∀ a, Fatal W P (f a)) :
    Fatal W P (m >>= f) := by
  refine Fatal.andThen hm (fun e he => .raise he) fun r => ?_
  cases r with
  | ok a => exact hf a
  | error e => trivial

/-- The handler raises an error of `Q` for every error that a failing write led to. -/
theorem Fatal.tryCatch {h : E → Prog S L E V α} (hm : Fatal W P m)
    (hd : ∀ e, P e → Doomed Q (h e)) (hh : ∀ e, Fatal W Q (h e)) :
    Fatal W Q (m.tryCatch h) := by
  refine Fatal.andThen hm hd fun r => ?_
  cases r with
  | ok a => exact Fatal.ret a
  | error e => exact hh e

/-- A transaction around a fatal program is fatal. -/
theorem Fatal.atomic (hm : Fatal W P m) : Fatal W P (Prog.atomic m) := by
  refine Fatal.andThen hm (fun e he => .rollback (.raise he)) fun r => ?_
  cases r with
  | ok a =>
      intro r
      cases r with
      | ok _ => exact Fatal.ret a
      | error e => exact Fatal.raise e
  | error e => trivial

theorem Fatal.select (q : Stamp → S → α) : Fatal W P (Prog.select q : Prog S L E V α) := by
  intro r
  cases r with
  | ok _ => exact Fatal.ret _
  | error e => exact Fatal.raise e

theorem Fatal.acquireAll (ls : List L) : Fatal W P (Prog.acquireAll ls : Prog S L E V Unit) := by
  induction ls with
  | nil => exact Fatal.ret ()
  | cons l ls ih =>
      intro r
      cases r with
      | ok _ => exact ih
      | error e => exact Fatal.raise e

theorem Fatal.ofAnswer (r : Except E α) : Fatal W P (Prog.ofAnswer r : Prog S L E V α) := by
  cases r with
  | ok a => exact Fatal.ret a
  | error e => exact Fatal.raise e

theorem Fatal.acquire (l : L) : Fatal W P (Prog.acquire l : Prog S L E V Unit) := Fatal.ofAnswer

theorem Fatal.fresh : Fatal W P (Prog.fresh : Prog S L E V Nat) := fun n => Fatal.ret n

theorem Fatal.observe (v : V) : Fatal W P (Prog.observe v : Prog S L E V Unit) := trivial

theorem Fatal.raiseIf (c : Bool) (e : E) : Fatal W P (Prog.raiseIf c e : Prog S L E V Unit) := by
  cases c with
  | true => exact Fatal.raise e
  | false => exact Fatal.ret ()

/-- A write of another kind. -/
theorem Fatal.write {f : S → S} (hf : ¬ W f) : Fatal W P (Prog.write f : Prog S L E V Unit) :=
  ⟨fun hw => absurd hw hf, Fatal.ofAnswer⟩

/-- The failing write itself raises what the database says. -/
theorem Fatal.writeAny (f : S → S) :
    Fatal W (fun _ => True) (Prog.write f : Prog S L E V Unit) :=
  ⟨fun _ _ => .raise trivial, Fatal.ofAnswer⟩

end Rules

/-! ## Runs -/

/-- A step of a doomed program leaves it doomed. -/
theorem Doomed.step {m m' : Prog S L E V α} {w w' : World S L V} (h : Doomed P m)
    (hs : LocalStep D (m, w) (m', w')) : Doomed P m' := by
  cases h with
  | raise he => cases hs
  | rollback hk =>
      cases hs
      exact hk

/-- **STEP**: a program stays fatal as it goes. -/
theorem Fatal.step {m m' : Prog S L E V α} {w w' : World S L V} (h : Fatal W P m)
    (hs : LocalStep D (m, w) (m', w')) : Fatal W P m' := by
  cases hs with
  | begin | rollback | mark => exact h
  | commit | commitFault | lock | lockFault | query | queryFault | choose => exact h _
  | update | updateFault => exact h.2 _

variable [DecidableEq ι] {c c' : Config ι S L E V α} {i : ι}

/-- A property of programs that every statement keeps is kept by every run. -/
theorem kept_reaches {K : Prog S L E V α → Prop}
    (hstep : ∀ {m m' : Prog S L E V α} {w w' : World S L V}, K m →
      LocalStep D (m, w) (m', w') → K m')
    (h : K (c.prog i)) (hr : Reaches D c c') : K (c'.prog i) := by
  refine Reaches.invariant (P := fun c => K (c.prog i)) (fun a b who ha hs => ?_) h hr
  cases hs with
  | tick | env => exact ha
  | session _ j m w hloc _ =>
      by_cases hj : i = j
      · subst hj
        show K (Function.update a.prog i m i)
        rw [Function.update_self]
        exact hstep ha hloc
      · show K (Function.update a.prog j m i)
        rw [Function.update_of_ne hj]
        exact ha

/-- From `c` to `c'`, the next statement of session `i`, a write of `W`, fails. -/
def WriteFails (D : Database S L E) (W : (S → S) → Prop) (i : ι)
    (c c' : Config ι S L E V α) : Prop :=
  ∃ f k e, W f ∧ D.fault e ∧ c.prog i = .update f k ∧
    c' = c.put i (k (.error e)) (c.world i)

/-- The failure of a statement is a step of its session. -/
theorem WriteFails.step [Subsingleton ι] {a b : Config ι S L E V α}
    (h : WriteFails D W i a b) : Step D (some i) a b := by
  obtain ⟨f, k, e, -, hfault, hprog, hb⟩ := h
  rw [hb]
  refine .session a i _ _ ?_ fun j hj => absurd (Subsingleton.elim j i) hj
  rw [hprog]
  exact .updateFault f k _ e hfault

/-- What is left after such a failure does end. -/
theorem doomed_ends [Subsingleton ι] (h : Doomed P (c.prog i)) :
    ∃ c', Reaches D c c' ∧ ∃ e, c'.prog i = .raise e ∧ P e := by
  generalize hm : c.prog i = m at h
  induction h generalizing c with
  | raise he => exact ⟨c, Reaches.refl D c, _, hm, he⟩
  | @rollback k _ ih =>
      have hstep : Step D (some i) c (c.put i k (c.world i).rollback) :=
        .session c i k _ (by rw [hm]; exact .rollback k _)
          fun j hj => absurd (Subsingleton.elim j i) hj
      have hprog : (c.put i k (c.world i).rollback).prog i = k := by
        simp only [Config.put, Function.update_self]
      obtain ⟨c', hr, hend⟩ := ih hprog
      exact ⟨c', ((Reaches.refl D c).step hstep).trans hr, hend⟩

/-- After a failing write of `W`, the program of session `i` is doomed. -/
theorem fatal_doomed {a b : Config ι S L E V α} (hm : Fatal W P (c.prog i))
    (hr : Reaches D c a) (hfail : WriteFails D W i a b) : Doomed P (b.prog i) := by
  obtain ⟨f, k, e, hf, -, hprog, hb⟩ := hfail
  have hat : Fatal W P (a.prog i) := kept_reaches Fatal.step hm hr
  rw [hprog] at hat
  rw [hb]
  show Doomed P (Function.update a.prog i (k (.error e)) i)
  rw [Function.update_self]
  exact hat.1 hf e

/-- **FAILURE**: after a failing write of `W`, what session `i` ends with is an error
    of `P`. -/
theorem fatal_run {a b : Config ι S L E V α} (hm : Fatal W P (c.prog i)) (hr : Reaches D c a)
    (hfail : WriteFails D W i a b) (hr' : Reaches D b c') :
    (∀ r, c'.prog i ≠ .ret r) ∧ ∀ e, c'.prog i = .raise e → P e := by
  have hdoomed : Doomed P (b.prog i) := fatal_doomed hm hr hfail
  have hend : Doomed P (c'.prog i) := kept_reaches Doomed.step hdoomed hr'
  constructor
  · intro r he
    rw [he] at hend
    exact nomatch hend
  · intro x he
    rw [he] at hend
    cases hend with
    | raise h => exact h

end TxnFailure
