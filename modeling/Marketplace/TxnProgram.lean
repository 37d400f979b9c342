import Mathlib.Logic.Function.Basic

/-! # Transaction programs

    A client of a relational database is a program of statements: it opens
    transactions and savepoints, waits for locks, reads, writes, and branches on
    what it read.  `Prog` is the tree of such a program, over an arbitrary store
    `S`, lock type `L` and error type `E`; every statement may also answer with an
    error of the database.  A program reads the committed store through its own
    uncommitted writes, which are kept as one function `pend`.

    `V` is a type of ghost observations: `mark` records the moment it is reached
    and changes nothing that a statement can read. -/

namespace TxnProgram

/-- The clock readings of one statement: the start of its transaction and its own
    time. -/
structure Stamp where
  start : Nat
  now : Nat
  deriving DecidableEq, Repr

/-- Programs over stores `S`, locks `L`, errors `E` and observations `V`. -/
inductive Prog (S L E V α : Type) where
  | ret (a : α)
  | raise (e : E)
  | begin (k : Prog S L E V α)
  | commit (k : Except E Unit → Prog S L E V α)
  | rollback (k : Prog S L E V α)
  | lock (l : L) (k : Except E Unit → Prog S L E V α)
  | query (k : Except E (Stamp × S) → Prog S L E V α)
  | update (f : S → S) (k : Except E Unit → Prog S L E V α)
  | choose (k : Nat → Prog S L E V α)
  | mark (v : V) (k : Prog S L E V α)

/-- How a transaction ended: the body of one that was undone may have had an answer. -/
inductive Outcome (E α : Type) where
  | kept (answer : α)
  | undone (error : E) (answer : Option α)

namespace Prog

variable {S L E V α β : Type}

/-- Go on with `f` from the answer or the error that the program ends with. -/
def andThen : Prog S L E V α → (Except E α → Prog S L E V β) → Prog S L E V β
  | .ret a, f => f (.ok a)
  | .raise e, f => f (.error e)
  | .begin k, f => .begin (andThen k f)
  | .commit k, f => .commit (fun r => andThen (k r) f)
  | .rollback k, f => .rollback (andThen k f)
  | .lock l k, f => .lock l (fun r => andThen (k r) f)
  | .query k, f => .query (fun r => andThen (k r) f)
  | .update g k, f => .update g (fun r => andThen (k r) f)
  | .choose k, f => .choose (fun n => andThen (k n) f)
  | .mark v k, f => .mark v (andThen k f)

/-- Sequencing: an error skips the continuation. -/
def bind (m : Prog S L E V α) (f : α → Prog S L E V β) : Prog S L E V β :=
  andThen m fun
    | .ok a => f a
    | .error e => .raise e

instance : Monad (Prog S L E V) where
  pure := .ret
  bind := bind

/-- Handling: the handler runs on the error the program ends with. -/
def tryCatch (m : Prog S L E V α) (h : E → Prog S L E V α) : Prog S L E V α :=
  andThen m fun
    | .ok a => .ret a
    | .error e => h e

/-- The answer of a statement as a program: an error is raised. -/
def ofAnswer : Except E α → Prog S L E V α
  | .ok a => .ret a
  | .error e => .raise e

/-- One reading statement: `q` of the clock readings and the visible store. -/
def select (q : Stamp → S → α) : Prog S L E V α :=
  .query fun
    | .ok (t, s) => .ret (q t s)
    | .error e => .raise e

/-- Wait for a lock; it is kept to the end of the transaction. -/
def acquire (l : L) : Prog S L E V Unit := .lock l ofAnswer

/-- Wait for several locks, one after the other. -/
def acquireAll : List L → Prog S L E V Unit
  | [] => .ret ()
  | l :: ls => .lock l fun
      | .ok () => acquireAll ls
      | .error e => .raise e

/-- One writing statement. -/
def write (f : S → S) : Prog S L E V Unit := .update f ofAnswer

/-- A value the database or the platform makes up: a sequence number, a random
    identifier. -/
def fresh : Prog S L E V Nat := .choose .ret

/-- A ghost observation of the present moment. -/
def observe (v : V) : Prog S L E V Unit := .mark v (.ret ())

/-- Raise `e` when `c` holds. -/
def raiseIf (c : Bool) (e : E) : Prog S L E V Unit :=
  if c then .raise e else .ret ()

/-- Run `m` in a transaction of its own, or in a savepoint when one is open: its
    writes are kept when it returns and undone when it raises. -/
def atomic (m : Prog S L E V α) : Prog S L E V α :=
  .begin (andThen m fun
    | .error e => .rollback (.raise e)
    | .ok a => .commit fun
        | .ok () => .ret a
        | .error e => .raise e)

/-- `atomic`, for a caller that goes on from either end of the transaction. -/
def attempt (m : Prog S L E V α) : Prog S L E V (Outcome E α) :=
  .begin (andThen m fun
    | .error e => .rollback (.ret (.undone e none))
    | .ok a => .commit fun
        | .ok () => .ret (.kept a)
        | .error e => .ret (.undone e (some a)))

end Prog

/-! ## Sessions and worlds -/

/-- What a transaction or savepoint goes back to on rollback. -/
structure Frame (S L : Type) where
  pend : S → S
  held : List L

/-- History of a session: its commits and its observations. -/
inductive Event (S V : Type) where
  | committed (before after : S)
  | marked (now : Nat) (db : S) (v : V)

/-- One client session: open frames (innermost first), uncommitted writes, locks
    held, start of the transaction, and the history, which no statement reads. -/
structure Session (S L V : Type) where
  frames : List (Frame S L) := []
  pend : S → S := id
  held : List L := []
  start : Nat := 0
  hist : List (Event S V) := []

/-- What a session sees of the world: the committed store, the clock, itself. -/
structure World (S L V : Type) where
  db : S
  now : Nat
  sess : Session S L V := {}

namespace World

variable {S L E V : Type}

/-- The store as the session reads it: committed data under its own writes. -/
def view (w : World S L V) : S := w.sess.pend w.db

/-- The clock readings of a statement run now. -/
def stamp (w : World S L V) : Stamp := ⟨w.sess.start, w.now⟩

/-- `BEGIN`, or `SAVEPOINT` inside a transaction. -/
def begin (w : World S L V) : World S L V :=
  { w with sess := { w.sess with
      frames := ⟨w.sess.pend, w.sess.held⟩ :: w.sess.frames
      start := if w.sess.frames.isEmpty then w.now else w.sess.start } }

/-- `ROLLBACK`, or `ROLLBACK TO SAVEPOINT`: writes undone, later locks released. -/
def rollback (w : World S L V) : World S L V :=
  match w.sess.frames with
  | [] => w
  | f :: fs => { w with sess := { w.sess with
      frames := fs, pend := f.pend, held := f.held } }

/-- Add a lock to those held. -/
def hold (w : World S L V) (l : L) : World S L V :=
  { w with sess := { w.sess with held := l :: w.sess.held } }

/-- Add several locks, in order. -/
def holdAll (w : World S L V) (ls : List L) : World S L V :=
  ls.foldl hold w

/-- Add a write to the uncommitted ones. -/
def write (w : World S L V) (f : S → S) : World S L V :=
  { w with sess := { w.sess with pend := fun s => f (w.sess.pend s) } }

/-- Record an observation. -/
def note (w : World S L V) (v : V) : World S L V :=
  { w with sess := { w.sess with hist := .marked w.now w.db v :: w.sess.hist } }

/-- `COMMIT` of the outermost transaction, accepted. -/
def publish (w : World S L V) : World S L V :=
  { w with
    db := w.view
    sess := { frames := [], pend := id, held := [], start := w.sess.start
              hist := .committed w.db w.view :: w.sess.hist } }

/-- `RELEASE SAVEPOINT`: writes and locks pass to the enclosing frame. -/
def release (w : World S L V) : World S L V :=
  { w with sess := { w.sess with frames := w.sess.frames.tail } }

/-- `COMMIT` or `RELEASE`; the former checks the deferred constraints on what it is
    about to publish. -/
def commit (deferred : S → S → Option E) (w : World S L V) :
    Except E Unit × World S L V :=
  match w.sess.frames with
  | [] => (.ok (), w)
  | [_] =>
      match deferred w.db w.view with
      | none => (.ok (), w.publish)
      | some e => (.error e, w.rollback)
  | _ :: _ :: _ => (.ok (), w.release)

/-- A block remembers what was pending and held, and changes nothing else. -/
@[simp] theorem begin_db (w : World S L V) : w.begin.db = w.db := rfl
@[simp] theorem begin_now (w : World S L V) : w.begin.now = w.now := rfl
@[simp] theorem begin_view (w : World S L V) : w.begin.view = w.view := rfl
@[simp] theorem begin_pend (w : World S L V) : w.begin.sess.pend = w.sess.pend := rfl
@[simp] theorem begin_held (w : World S L V) : w.begin.sess.held = w.sess.held := rfl
@[simp] theorem begin_hist (w : World S L V) : w.begin.sess.hist = w.sess.hist := rfl
@[simp] theorem begin_frames (w : World S L V) :
    w.begin.sess.frames = ⟨w.sess.pend, w.sess.held⟩ :: w.sess.frames := rfl

/-- A lock is added to what is held. -/
@[simp] theorem hold_db (w : World S L V) (l : L) : (w.hold l).db = w.db := rfl
@[simp] theorem hold_now (w : World S L V) (l : L) : (w.hold l).now = w.now := rfl
@[simp] theorem hold_view (w : World S L V) (l : L) : (w.hold l).view = w.view := rfl
@[simp] theorem hold_pend (w : World S L V) (l : L) :
    (w.hold l).sess.pend = w.sess.pend := rfl
@[simp] theorem hold_held (w : World S L V) (l : L) :
    (w.hold l).sess.held = l :: w.sess.held := rfl
@[simp] theorem hold_frames (w : World S L V) (l : L) :
    (w.hold l).sess.frames = w.sess.frames := rfl
@[simp] theorem hold_start (w : World S L V) (l : L) :
    (w.hold l).sess.start = w.sess.start := rfl
@[simp] theorem hold_hist (w : World S L V) (l : L) :
    (w.hold l).sess.hist = w.sess.hist := rfl

/-- A write is pending, and the committed store stays. -/
@[simp] theorem write_db (w : World S L V) (f : S → S) : (w.write f).db = w.db := rfl
@[simp] theorem write_now (w : World S L V) (f : S → S) : (w.write f).now = w.now := rfl
@[simp] theorem write_view (w : World S L V) (f : S → S) :
    (w.write f).view = f w.view := rfl
@[simp] theorem write_pend (w : World S L V) (f : S → S) :
    (w.write f).sess.pend = fun s => f (w.sess.pend s) := rfl
@[simp] theorem write_held (w : World S L V) (f : S → S) :
    (w.write f).sess.held = w.sess.held := rfl
@[simp] theorem write_frames (w : World S L V) (f : S → S) :
    (w.write f).sess.frames = w.sess.frames := rfl
@[simp] theorem write_start (w : World S L V) (f : S → S) :
    (w.write f).sess.start = w.sess.start := rfl
@[simp] theorem write_hist (w : World S L V) (f : S → S) :
    (w.write f).sess.hist = w.sess.hist := rfl

/-- A mark is put into the history. -/
@[simp] theorem note_db (w : World S L V) (v : V) : (w.note v).db = w.db := rfl
@[simp] theorem note_now (w : World S L V) (v : V) : (w.note v).now = w.now := rfl
@[simp] theorem note_view (w : World S L V) (v : V) : (w.note v).view = w.view := rfl
@[simp] theorem note_pend (w : World S L V) (v : V) :
    (w.note v).sess.pend = w.sess.pend := rfl
@[simp] theorem note_held (w : World S L V) (v : V) :
    (w.note v).sess.held = w.sess.held := rfl
@[simp] theorem note_frames (w : World S L V) (v : V) :
    (w.note v).sess.frames = w.sess.frames := rfl
@[simp] theorem note_hist (w : World S L V) (v : V) :
    (w.note v).sess.hist = .marked w.now w.db v :: w.sess.hist := rfl

/-- What is rolled back is what the session had pending. -/
@[simp] theorem rollback_db (w : World S L V) : w.rollback.db = w.db := by
  unfold rollback
  cases w.sess.frames <;> rfl

@[simp] theorem rollback_now (w : World S L V) : w.rollback.now = w.now := by
  unfold rollback
  cases w.sess.frames <;> rfl

@[simp] theorem rollback_hist (w : World S L V) :
    w.rollback.sess.hist = w.sess.hist := by
  unfold rollback
  cases w.sess.frames <;> rfl

@[simp] theorem holdAll_nil (w : World S L V) : w.holdAll [] = w := rfl
@[simp] theorem holdAll_cons (w : World S L V) (l : L) (ls : List L) :
    w.holdAll (l :: ls) = (w.hold l).holdAll ls := rfl

end World

/-! ## A program run alone -/

namespace Prog

variable {S L E V α : Type}

/-- The run of a program that has the database to itself: every lock is granted,
    no statement fails, the clock stands, and made-up values come from `ids`. -/
def run (deferred : S → S → Option E) :
    Prog S L E V α → (Nat → Nat) → World S L V → Except E α × World S L V
  | .ret a, _, w => (.ok a, w)
  | .raise e, _, w => (.error e, w)
  | .begin k, ids, w => run deferred k ids w.begin
  | .commit k, ids, w =>
      run deferred (k (w.commit deferred).1) ids (w.commit deferred).2
  | .rollback k, ids, w => run deferred k ids w.rollback
  | .lock l k, ids, w => run deferred (k (.ok ())) ids (w.hold l)
  | .query k, ids, w => run deferred (k (.ok (w.stamp, w.view))) ids w
  | .update f k, ids, w => run deferred (k (.ok ())) ids (w.write f)
  | .choose k, ids, w => run deferred (k (ids 0)) (fun n => ids (n + 1)) w
  | .mark v k, ids, w => run deferred k ids (w.note v)

end Prog

end TxnProgram
