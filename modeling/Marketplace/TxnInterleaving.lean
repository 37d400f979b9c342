import Mathlib.Logic.Function.Basic
import Mathlib.Logic.Relation
import Marketplace.TxnProgram

/-! # Interleaved transaction programs

    Any number of sessions run against one store.  A step is one statement of one
    session, a tick of the clock, or a change made by somebody outside the
    program (`env`).  A lock is granted only while no other session holds a lock
    that conflicts with it, so a session waits by not being scheduled; a statement
    may fail with an error of `fault`.  Statements see committed data only
    (besides the session's own writes): the isolation level is read committed. -/

namespace TxnInterleaving

open TxnProgram

/-- What a database is given by: which locks exclude each other, the constraints
    checked by `COMMIT`, the errors a statement may fail with, and the changes made
    from outside. -/
structure Database (S L E : Type) where
  conflict : L → L → Prop
  deferred : S → S → Option E
  fault : E → Prop
  env : S → S → Prop

/-- One statement of one session. -/
inductive LocalStep {S L E V α : Type} (D : Database S L E) :
    Prog S L E V α × World S L V → Prog S L E V α × World S L V → Prop where
  | begin (k) (w) : LocalStep D (.begin k, w) (k, w.begin)
  | commit (k) (w) :
      LocalStep D (.commit k, w) (k (w.commit D.deferred).1, (w.commit D.deferred).2)
  | commitFault (k) (w) (e) : D.fault e →
      LocalStep D (.commit k, w) (k (.error e), w.rollback)
  | rollback (k) (w) : LocalStep D (.rollback k, w) (k, w.rollback)
  | lock (l) (k) (w) : LocalStep D (.lock l k, w) (k (.ok ()), w.hold l)
  | lockFault (l) (k) (w) (e) : D.fault e →
      LocalStep D (.lock l k, w) (k (.error e), w)
  | query (k) (w) : LocalStep D (.query k, w) (k (.ok (w.stamp, w.view)), w)
  | queryFault (k) (w) (e) : D.fault e →
      LocalStep D (.query k, w) (k (.error e), w)
  | update (f) (k) (w) : LocalStep D (.update f k, w) (k (.ok ()), w.write f)
  | updateFault (f) (k) (w) (e) : D.fault e →
      LocalStep D (.update f k, w) (k (.error e), w)
  | choose (k) (w) (n) : LocalStep D (.choose k, w) (k n, w)
  | mark (v) (k) (w) : LocalStep D (.mark v k, w) (k, w.note v)

/-- A store, the clock, and the sessions with what is left of their programs. -/
structure Config (ι S L E V α : Type) where
  db : S
  now : Nat
  prog : ι → Prog S L E V α
  sess : ι → Session S L V

namespace Config

variable {ι S L E V α : Type}

/-- The world as session `i` sees it. -/
def world (c : Config ι S L E V α) (i : ι) : World S L V :=
  ⟨c.db, c.now, c.sess i⟩

/-- Session `i` moved on to program `m` in world `w`. -/
def put [DecidableEq ι] (c : Config ι S L E V α) (i : ι) (m : Prog S L E V α)
    (w : World S L V) : Config ι S L E V α where
  db := w.db
  now := c.now
  prog := Function.update c.prog i m
  sess := Function.update c.sess i w.sess

/-- Every session idle at the start of its program. -/
def start (s : S) (now : Nat) (prog : ι → Prog S L E V α) :
    Config ι S L E V α where
  db := s
  now := now
  prog := prog
  sess := fun _ => {}

end Config

variable {ι S L E V α : Type} [DecidableEq ι]

/-- One step of the whole system, with the session that made it. -/
inductive Step (D : Database S L E) :
    Option ι → Config ι S L E V α → Config ι S L E V α → Prop where
  | tick (c) (t : Nat) : c.now ≤ t → Step D none c { c with now := t }
  | env (c) (s : S) : D.env c.db s → Step D none c { c with db := s }
  | session (c) (i : ι) (m) (w) :
      LocalStep D (c.prog i, c.world i) (m, w) →
      (∀ j, j ≠ i → ∀ x ∈ (c.sess j).held, ∀ l ∈ w.sess.held, ¬ D.conflict l x) →
      Step D (some i) c (c.put i m w)

/-- Runs of the system. -/
def Reaches (D : Database S L E) :
    Config ι S L E V α → Config ι S L E V α → Prop :=
  Relation.ReflTransGen fun c c' => ∃ who, Step D who c c'

theorem Reaches.refl (D : Database S L E) (c : Config ι S L E V α) :
    Reaches D c c := Relation.ReflTransGen.refl

theorem Reaches.trans {D : Database S L E} {a b c : Config ι S L E V α}
    (h : Reaches D a b) (h' : Reaches D b c) : Reaches D a c :=
  Relation.ReflTransGen.trans h h'

theorem Reaches.step {D : Database S L E} {a b c : Config ι S L E V α}
    {who : Option ι} (h : Reaches D a b) (h' : Step D who b c) : Reaches D a c :=
  Relation.ReflTransGen.tail h ⟨who, h'⟩

/-- **RUN RULE**: what holds at first and is kept by every step holds in every
    configuration reached. -/
theorem Reaches.invariant {D : Database S L E} {P : Config ι S L E V α → Prop}
    (hstep : ∀ c c' who, P c → Step D who c c' → P c')
    {a b : Config ι S L E V α} (ha : P a) (h : Reaches D a b) : P b := by
  induction h with
  | refl => exact ha
  | tail _ hs ih =>
      obtain ⟨who, hs⟩ := hs
      exact hstep _ _ who ih hs

/-! ## Locks held by different sessions do not conflict -/

/-- No two sessions hold conflicting locks. -/
def LocksApart (D : Database S L E) (c : Config ι S L E V α) : Prop :=
  ∀ i j, i ≠ j → ∀ l ∈ (c.sess i).held, ∀ x ∈ (c.sess j).held,
    ¬ D.conflict l x

omit [DecidableEq ι] in
theorem locksApart_start (D : Database S L E) (s : S) (now : Nat)
    (prog : ι → Prog S L E V α) : LocksApart D (Config.start s now prog) := by
  intro i j _ l hl
  exact nomatch hl

theorem locksApart_step {D : Database S L E}
    (hsymm : ∀ l x, D.conflict l x → D.conflict x l)
    {c c' : Config ι S L E V α} {who : Option ι}
    (h : LocksApart D c) (hs : Step D who c c') : LocksApart D c' := by
  cases hs with
  | tick _ t ht => exact h
  | env _ s hs => exact h
  | session _ i m w hloc hfree =>
      intro a b hab l hl x hx
      by_cases ha : a = i
      · subst ha
        have hb : b ≠ a := fun e => hab e.symm
        simp only [Config.put, Function.update_self] at hl
        simp only [Config.put, Function.update_of_ne hb] at hx
        exact hfree b hb x hx l hl
      · simp only [Config.put, Function.update_of_ne ha] at hl
        by_cases hb : b = i
        · subst hb
          simp only [Config.put, Function.update_self] at hx
          exact fun hc => hfree a ha l hl x hx (hsymm _ _ hc)
        · simp only [Config.put, Function.update_of_ne hb] at hx
          exact h a b hab l hl x hx

end TxnInterleaving
