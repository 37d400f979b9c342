import Mathlib.Logic.Function.Basic
import Marketplace.TxnLogic

/-! # Evaluating a program that runs alone

    `Runs d m ids w r ids' g`: from world `w` the program `m` ends with `r`, having
    taken some locks and written `g` on top of what was pending.  The rules follow
    the statements, so that the result of a whole transaction is put together from
    the results of its parts. -/

namespace TxnRuns

open TxnProgram TxnLogic

variable {S L E V α β γ : Type} {d : S → S → Option E}

/-- Sequencing is associative. -/
theorem andThen_assoc (m : Prog S L E V α) (f : Except E α → Prog S L E V β)
    (g : Except E β → Prog S L E V γ) :
    (m.andThen f).andThen g = m.andThen fun r => (f r).andThen g := by
  induction m with
  | ret a => rfl
  | raise e => rfl
  | begin k ih => exact congrArg Prog.begin ih
  | commit k ih => exact congrArg Prog.commit (funext fun r => ih r)
  | rollback k ih => exact congrArg Prog.rollback ih
  | lock l k ih => exact congrArg (Prog.lock l) (funext fun r => ih r)
  | query k ih => exact congrArg Prog.query (funext fun r => ih r)
  | update u k ih => exact congrArg (Prog.update u) (funext fun r => ih r)
  | choose k ih => exact congrArg Prog.choose (funext fun n => ih n)
  | mark v k ih => exact congrArg (Prog.mark v) ih

/-- To answer what was answered adds nothing. -/
theorem andThen_ofAnswer (m : Prog S L E V α) : m.andThen Prog.ofAnswer = m := by
  induction m with
  | ret a => rfl
  | raise e => rfl
  | begin k ih => exact congrArg Prog.begin ih
  | commit k ih => exact congrArg Prog.commit (funext fun r => ih r)
  | rollback k ih => exact congrArg Prog.rollback ih
  | lock l k ih => exact congrArg (Prog.lock l) (funext fun r => ih r)
  | query k ih => exact congrArg Prog.query (funext fun r => ih r)
  | update u k ih => exact congrArg (Prog.update u) (funext fun r => ih r)
  | choose k ih => exact congrArg Prog.choose (funext fun n => ih n)
  | mark v k ih => exact congrArg (Prog.mark v) ih

/-- What follows `m` is run with `r`, the identifiers `ids'` and the world `w'`. -/
def Yields (d : S → S → Option E) (m : Prog S L E V α) (ids : Nat → Nat)
    (w : World S L V) (r : Except E α) (ids' : Nat → Nat) (w' : World S L V) : Prop :=
  ∀ {β : Type} (f : Except E α → Prog S L E V β),
    (m.andThen f).run d ids w = (f r).run d ids' w'

/-- `Yields`, where all that was done is to take locks and to write `g`. -/
def Runs (d : S → S → Option E) (m : Prog S L E V α) (ids : Nat → Nat)
    (w : World S L V) (r : Except E α) (ids' : Nat → Nat) (g : S → S) : Prop :=
  ∃ ls, Yields d m ids w r ids' ((w.holdAll ls).write g)

/-- What a program yields is what it runs to. -/
theorem Yields.run {m : Prog S L E V α} {ids ids' : Nat → Nat} {w w' : World S L V}
    {r : Except E α} (h : Yields d m ids w r ids' w') : m.run d ids w = (r, w') := by
  have hm := h Prog.ofAnswer
  rw [andThen_ofAnswer] at hm
  rw [hm]
  cases r <;> rfl

/-- One program after the other. -/
theorem Yields.andThen {m : Prog S L E V α} {f : Except E α → Prog S L E V β}
    {ids ids' ids'' : Nat → Nat} {w w' w'' : World S L V} {r : Except E α}
    {q : Except E β} (hm : Yields d m ids w r ids' w')
    (hf : Yields d (f r) ids' w' q ids'' w'') :
    Yields d (m.andThen f) ids w q ids'' w'' := by
  intro γ g
  rw [andThen_assoc, hm]
  exact hf g

/-! ## Locks and writes in a world -/

/-- Locks are added to what is held, and nothing else changes. -/
theorem holdAll_eq (ls : List L) (w : World S L V) :
    w.holdAll ls = { w with sess := { w.sess with held := ls.reverse ++ w.sess.held } } := by
  induction ls generalizing w with
  | nil => rfl
  | cons l ls ih =>
      rw [World.holdAll_cons, ih, List.reverse_cons, List.append_assoc]
      rfl

@[simp] theorem holdAll_db (ls : List L) (w : World S L V) :
    (w.holdAll ls).db = w.db := by rw [holdAll_eq]

@[simp] theorem holdAll_now (ls : List L) (w : World S L V) :
    (w.holdAll ls).now = w.now := by rw [holdAll_eq]

@[simp] theorem holdAll_pend (ls : List L) (w : World S L V) :
    (w.holdAll ls).sess.pend = w.sess.pend := by rw [holdAll_eq]

@[simp] theorem holdAll_start (ls : List L) (w : World S L V) :
    (w.holdAll ls).sess.start = w.sess.start := by rw [holdAll_eq]

@[simp] theorem holdAll_frames (ls : List L) (w : World S L V) :
    (w.holdAll ls).sess.frames = w.sess.frames := by rw [holdAll_eq]

/-- To write before or after locking is the same. -/
theorem holdAll_write (ls : List L) (w : World S L V) (g : S → S) :
    (w.write g).holdAll ls = (w.holdAll ls).write g := by
  rw [holdAll_eq, holdAll_eq]
  rfl

/-- Locks in two portions. -/
theorem holdAll_append (ls ls' : List L) (w : World S L V) :
    w.holdAll (ls ++ ls') = (w.holdAll ls).holdAll ls' := List.foldl_append ..

/-- What a session sees, and when: all that a statement can ask. -/
structure Sight (w : World S L V) (s : S) (now start : Nat) : Prop where
  view : w.view = s
  now : w.now = now
  start : w.sess.start = start
  opened : w.sess.frames ≠ []

/-- What is seen after locks and a write. -/
theorem Sight.after {w : World S L V} {s : S} {now start : Nat} (h : Sight w s now start)
    (ls : List L) (g : S → S) : Sight ((w.holdAll ls).write g) (g s) now start where
  view := by
    show g ((w.holdAll ls).sess.pend (w.holdAll ls).db) = g s
    rw [holdAll_pend, holdAll_db]
    exact congrArg g h.view
  now := (holdAll_now ls w).trans h.now
  start := (holdAll_start ls w).trans h.start
  opened := by
    rw [World.write_frames, holdAll_frames]
    exact h.opened

/-- `m`, run alone on what it sees, ends with `r` and writes `g`. -/
def Ends (d : S → S → Option E) (m : Prog S L E V α) (ids : Nat → Nat) (s : S)
    (now start : Nat) (r : Except E α) (ids' : Nat → Nat) (g : S → S) : Prop :=
  ∀ w : World S L V, Sight w s now start → Runs d m ids w r ids' g

section Rules

variable {ids ids' ids'' : Nat → Nat} {s : S} {now start : Nat}

/-- A program without effect. -/
theorem Runs.nothing {m : Prog S L E V α} {w : World S L V} {r : Except E α}
    (h : Yields d m ids w r ids' w) : Runs d m ids w r ids' id := ⟨[], h⟩

theorem Ends.ret (a : α) :
    Ends d (.ret a : Prog S L E V α) ids s now start (.ok a) ids id :=
  fun _ _ => Runs.nothing fun _ => rfl

theorem Ends.raise (e : E) :
    Ends d (.raise e : Prog S L E V α) ids s now start (.error e) ids id :=
  fun _ _ => Runs.nothing fun _ => rfl

/-- **SEQUENCING** of two ends. -/
theorem Ends.andThen {m : Prog S L E V α} {f : Except E α → Prog S L E V β}
    {r : Except E α} {q : Except E β} {g g' : S → S}
    (hm : Ends d m ids s now start r ids' g)
    (hf : Ends d (f r) ids' (g s) now start q ids'' g') :
    Ends d (m.andThen f) ids s now start q ids'' (fun x => g' (g x)) := by
  intro w hw
  obtain ⟨ls, hm⟩ := hm w hw
  obtain ⟨ls', hf⟩ := hf _ (hw.after ls g)
  refine ⟨ls ++ ls', ?_⟩
  rw [holdAll_write, ← holdAll_append] at hf
  exact hm.andThen hf

/-- **SEQUENCING**. -/
theorem Ends.bind {m : Prog S L E V α} {f : α → Prog S L E V β} {a : α}
    {q : Except E β} {g g' : S → S} (hm : Ends d m ids s now start (.ok a) ids' g)
    (hf : Ends d (f a) ids' (g s) now start q ids'' g') :
    Ends d (m >>= f) ids s now start q ids'' (fun x => g' (g x)) :=
  Ends.andThen hm hf

/-- The end of a program that writes no more. -/
theorem Ends.finish {m : Prog S L E V α} {f : Except E α → Prog S L E V β}
    {r : Except E α} {q : Except E β} {g : S → S}
    (hm : Ends d m ids s now start r ids' g)
    (hf : Ends d (f r) ids' (g s) now start q ids'' id) :
    Ends d (m.andThen f) ids s now start q ids'' g := by
  have h := Ends.andThen hm hf
  exact h

/-- A program that fails ends what follows. -/
theorem Ends.bindError {m : Prog S L E V α} {f : α → Prog S L E V β} {e : E}
    {g : S → S} (hm : Ends d m ids s now start (.error e) ids' g) :
    Ends d (m >>= f) ids s now start (.error e) ids' g :=
  Ends.finish (r := .error e) hm (Ends.raise e)

/-- A statement that writes nothing, and the rest. -/
theorem Ends.look {m : Prog S L E V α} {f : α → Prog S L E V β} {a : α}
    {q : Except E β} {g : S → S} (hm : Ends d m ids s now start (.ok a) ids' id)
    (hf : Ends d (f a) ids' s now start q ids'' g) :
    Ends d (m >>= f) ids s now start q ids'' g := Ends.bind hm hf

/-- The rest of a program that writes no more. -/
theorem Ends.bindLook {m : Prog S L E V α} {f : α → Prog S L E V β} {a : α}
    {q : Except E β} {g : S → S} (hm : Ends d m ids s now start (.ok a) ids' g)
    (hf : Ends d (f a) ids' (g s) now start q ids'' id) :
    Ends d (m >>= f) ids s now start q ids'' g := Ends.finish (r := .ok a) hm hf

/-- A handler that is not needed. -/
theorem Ends.tryOk {m : Prog S L E V α} {f : E → Prog S L E V α} {a : α} {g : S → S}
    (hm : Ends d m ids s now start (.ok a) ids' g) :
    Ends d (m.tryCatch f) ids s now start (.ok a) ids' g :=
  Ends.finish (r := .ok a) hm (Ends.ret a)

/-- A handler that is. -/
theorem Ends.tryError {m : Prog S L E V α} {f : E → Prog S L E V α} {e : E}
    {q : Except E α} {g : S → S} (hm : Ends d m ids s now start (.error e) ids' id)
    (hf : Ends d (f e) ids' s now start q ids'' g) :
    Ends d (m.tryCatch f) ids s now start q ids'' g := Ends.andThen hm hf

/-- A query answers from what is seen. -/
theorem Ends.select (q : Stamp → S → α) :
    Ends d (Prog.select q : Prog S L E V α) ids s now start (.ok (q ⟨start, now⟩ s))
      ids id := by
  intro w hw
  refine Runs.nothing fun f => ?_
  show (f (.ok (q w.stamp w.view))).run d ids w = _
  rw [hw.view, show w.stamp = ⟨start, now⟩ by rw [World.stamp, hw.start, hw.now]]

/-- Alone, every lock is free. -/
theorem Ends.acquire (l : L) :
    Ends d (Prog.acquire l : Prog S L E V Unit) ids s now start (.ok ()) ids id :=
  fun _ _ => ⟨[l], fun _ => rfl⟩

/-- All locks of a list are taken. -/
theorem yields_acquireAll (ls : List L) (w : World S L V) :
    Yields d (Prog.acquireAll ls : Prog S L E V Unit) ids w (.ok ()) ids
      (w.holdAll ls) := by
  induction ls generalizing w with
  | nil => exact fun _ => rfl
  | cons l ls ih => exact fun f => ih (w.hold l) f

theorem Ends.acquireAll (ls : List L) :
    Ends d (Prog.acquireAll ls : Prog S L E V Unit) ids s now start (.ok ()) ids id :=
  fun w _ => ⟨ls, yields_acquireAll ls w⟩

/-- A write has its effect. -/
theorem Ends.write (f : S → S) :
    Ends d (Prog.write f : Prog S L E V Unit) ids s now start (.ok ()) ids f :=
  fun _ _ => ⟨[], fun _ => rfl⟩

/-- The next number is taken. -/
theorem Ends.fresh :
    Ends d (Prog.fresh : Prog S L E V Nat) ids s now start (.ok (ids 0))
      (fun n => ids (n + 1)) id := fun _ _ => Runs.nothing fun _ => rfl

/-- A check that passes. -/
theorem Ends.raiseIf_false {c : Bool} {e : E} (h : c = false) :
    Ends d (Prog.raiseIf c e : Prog S L E V Unit) ids s now start (.ok ()) ids id := by
  rw [h]
  exact Ends.ret ()

/-- A check that fails. -/
theorem Ends.raiseIf_true {c : Bool} {e : E} (h : c = true) :
    Ends d (Prog.raiseIf c e : Prog S L E V Unit) ids s now start (.error e) ids id := by
  rw [h]
  exact Ends.raise e

/-- A savepoint, begun in an open frame. -/
theorem Sight.begin {w : World S L V} (h : Sight w s now start) :
    Sight w.begin s now start where
  view := h.view
  now := h.now
  start := by
    obtain ⟨f, fs, hf⟩ := List.exists_cons_of_ne_nil h.opened
    show (if w.sess.frames.isEmpty then w.now else w.sess.start) = start
    rw [hf]
    exact h.start
  opened := by
    rw [World.begin_frames]
    exact List.cons_ne_nil _ _

/-- The frame of a savepoint. -/
theorem Sight.begin_eq {w : World S L V} (h : Sight w s now start) :
    w.begin = { w with sess := { w.sess with
      frames := ⟨w.sess.pend, w.sess.held⟩ :: w.sess.frames } } := by
  obtain ⟨f, fs, hf⟩ := List.exists_cons_of_ne_nil h.opened
  show { w with sess := { w.sess with
    frames := ⟨w.sess.pend, w.sess.held⟩ :: w.sess.frames
    start := if w.sess.frames.isEmpty then w.now else w.sess.start } } = _
  rw [hf]
  rfl

/-- A savepoint that is released keeps its locks and its writes. -/
theorem Sight.release {w : World S L V} (h : Sight w s now start) (ls : List L)
    (g : S → S) :
    ((w.begin.holdAll ls).write g).release = (w.holdAll ls).write g := by
  rw [h.begin_eq, holdAll_eq, holdAll_eq]
  rfl

/-- One that is rolled back leaves nothing. -/
theorem Sight.rollback {w : World S L V} (h : Sight w s now start) (ls : List L)
    (g : S → S) : ((w.begin.holdAll ls).write g).rollback = w := by
  rw [h.begin_eq, holdAll_eq]
  rfl

/-- **SAVEPOINT**: an answer keeps what the body wrote. -/
theorem Ends.savepoint {m : Prog S L E V α} {a : α} {g : S → S}
    (hm : Ends d m ids s now start (.ok a) ids' g) :
    Ends d (Prog.atomic m) ids s now start (.ok a) ids' g := by
  intro w hw
  obtain ⟨ls, hls⟩ := hm _ hw.begin
  refine ⟨ls, fun f => ?_⟩
  obtain ⟨x, xs, hf⟩ := List.exists_cons_of_ne_nil hw.opened
  have hcommit : ((w.begin.holdAll ls).write g).commit d =
      (.ok (), (w.holdAll ls).write g) := by
    rw [← hw.release ls g]
    have hframes : ((w.begin.holdAll ls).write g).sess.frames =
        ⟨w.sess.pend, w.sess.held⟩ :: x :: xs := by
      rw [World.write_frames, holdAll_frames, World.begin_frames, hf]
    exact commit_nested hframes
  show ((m.andThen _).andThen f).run d ids w.begin = _
  rw [andThen_assoc, hls]
  show Prog.run d _ ids' (((w.begin.holdAll ls).write g).commit d).2 = _
  rw [hcommit]
  rfl

/-- **SAVEPOINT**: an error leaves nothing. -/
theorem Ends.savepointError {m : Prog S L E V α} {e : E} {g : S → S}
    (hm : Ends d m ids s now start (.error e) ids' g) :
    Ends d (Prog.atomic m) ids s now start (.error e) ids' id := by
  intro w hw
  obtain ⟨ls, hls⟩ := hm _ hw.begin
  refine Runs.nothing fun f => ?_
  show ((m.andThen _).andThen f).run d ids w.begin = _
  rw [andThen_assoc, hls]
  show Prog.run d _ ids' ((w.begin.holdAll ls).write g).rollback = _
  rw [hw.rollback ls g]
  rfl

/-! ## Whole transactions -/

/-- A new session at the start of a transaction. -/
theorem sight_start (s : S) (now : Nat) :
    Sight (⟨s, now, {}⟩ : World S L V).begin s now now :=
  ⟨rfl, rfl, rfl, List.cons_ne_nil _ _⟩

/-- **TRANSACTION**: an answer is published when the deferred constraints hold. -/
theorem Ends.transaction {m : Prog S L E V α} {a : α} {g : S → S}
    (hm : Ends d m ids s now now (.ok a) ids' g) (hd : d s (g s) = none) :
    ∃ w : World S L V, Yields d (Prog.atomic m) ids ⟨s, now, {}⟩ (.ok a) ids' w ∧
      w.db = g s := by
  obtain ⟨ls, hls⟩ := hm _ (sight_start s now)
  let w0 : World S L V := (⟨s, now, {}⟩ : World S L V).begin
  let w1 : World S L V := (w0.holdAll ls).write g
  have hview : w1.view = g s := ((sight_start s now).after ls g).view
  have hdb : w1.db = s := by
    show (w0.holdAll ls).db = s
    rw [holdAll_db]
    rfl
  have hframes : w1.sess.frames = [⟨id, []⟩] := by
    show (w0.holdAll ls).sess.frames = _
    rw [holdAll_frames]
    rfl
  have hcommit : w1.commit d = (.ok (), w1.publish) := by
    refine commit_top hframes ?_
    rw [hdb, hview, hd]
  refine ⟨w1.publish, fun f => ?_, hview⟩
  show ((m.andThen _).andThen f).run d ids w0 = _
  rw [andThen_assoc, hls]
  show Prog.run d _ ids' (w1.commit d).2 = _
  rw [hcommit]
  rfl

/-- **TRANSACTION**: an error leaves the store as it was. -/
theorem Ends.transactionError {m : Prog S L E V α} {e : E} {g : S → S}
    (hm : Ends d m ids s now now (.error e) ids' g) :
    ∃ w : World S L V, Yields d (Prog.atomic m) ids ⟨s, now, {}⟩ (.error e) ids' w ∧
      w.db = s := by
  obtain ⟨ls, hls⟩ := hm _ (sight_start s now)
  let w0 : World S L V := (⟨s, now, {}⟩ : World S L V).begin
  let w1 : World S L V := (w0.holdAll ls).write g
  refine ⟨w1.rollback, fun f => ?_, ?_⟩
  · show ((m.andThen _).andThen f).run d ids w0 = _
    rw [andThen_assoc, hls]
    rfl
  · rw [World.rollback_db]
    show (w0.holdAll ls).db = s
    rw [holdAll_db]
    rfl

end Rules

end TxnRuns
