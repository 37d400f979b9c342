import Mathlib.Data.List.Basic
import Marketplace.Store
import Marketplace.TxnRuns

/-! # Calls that have the database to themselves

    The statements of `Store`, evaluated by `Ends`, and what a whole call returns
    and leaves. -/

namespace Market

open TxnProgram TxnRuns

variable {α ρ : Type} {d : Store → Store → Option Exn} {ids ids' : Nat → Nat}
  {s : Store} {now start : Time}

/-- A query ends with what the store holds. -/
theorem ends_fetch (q : Store → α) :
    Ends d (fetch q) ids s now start (.ok (q s)) ids id := Ends.select _

/-- A query with the clock ends with what the store holds at that time. -/
theorem ends_fetchNow (q : Time → Store → α) :
    Ends d (fetchNow q) ids s now start (.ok (q now s)) ids id := Ends.select _

/-- An exception ends the call. -/
theorem ends_raise (e : Exn) :
    Ends d (raise e : M α) ids s now start (.error e) ids id := Ends.raise e

/-- A return ends the call. -/
theorem ends_return (a : α) :
    Ends d (pure a : M α) ids s now start (.ok a) ids id := Ends.ret a

/-- The rows that a locking query found are found again. -/
theorem filter_found (rows : List ρ) (pk : ρ → Nat) (p : ρ → Bool) :
    (rows.filter fun r => p r && ((rows.filter p).map pk).contains (pk r)) = rows.filter p := by
  refine List.filter_congr fun r hr => ?_
  cases hp : p r with
  | false => rfl
  | true =>
      rw [Bool.true_and, List.contains_iff_mem]
      exact List.mem_map.mpr ⟨r, List.mem_filter.mpr ⟨hr, hp⟩, rfl⟩

/-- Alone, a locking query returns the rows that satisfy its condition. -/
theorem ends_selectForUpdate (t : Table) (rows : Store → List ρ) (pk : ρ → Nat)
    (p : ρ → Bool) :
    Ends d (selectForUpdate t rows pk p) ids s now start (.ok ((rows s).filter p)) ids
      id := by
  refine Ends.look (ends_fetch _) (Ends.look (Ends.acquireAll _) ?_)
  have h : Ends d _ ids s now start _ ids id := ends_fetch fun s' => (rows s').filter fun r =>
    p r && (((rows s).filter p).map pk).contains (pk r)
  rw [filter_found] at h
  exact h

/-- Alone, a locking query finds the first row that matches. -/
theorem ends_firstForUpdate (t : Table) (rows : Store → List ρ) (pk : ρ → Nat)
    (p : ρ → Bool) :
    Ends d (firstForUpdate t rows pk p) ids s now start (.ok ((rows s).find? p)) ids
      id := by
  refine Ends.look (ends_selectForUpdate t rows pk p) ?_
  rw [← List.head?_filter]
  exact Ends.ret _

/-- `.get()` of a row that is there. -/
theorem ends_getForUpdate {t : Table} {rows : Store → List ρ} {pk : ρ → Nat}
    {p : ρ → Bool} {r : ρ} (h : (rows s).find? p = some r) :
    Ends d (getForUpdate t rows pk p) ids s now start (.ok r) ids id := by
  refine Ends.look (ends_firstForUpdate t rows pk p) ?_
  rw [h]
  exact Ends.ret r

/-- `.get()` of a row that is not. -/
theorem ends_getForUpdate_none {t : Table} {rows : Store → List ρ} {pk : ρ → Nat}
    {p : ρ → Bool} (h : (rows s).find? p = none) :
    Ends d (getForUpdate t rows pk p) ids s now start (.error (.doesNotExist t)) ids
      id := by
  refine Ends.look (ends_firstForUpdate t rows pk p) ?_
  rw [h]
  exact Ends.raise _

theorem ends_getRow {t : Table} {q : Store → Option ρ} {r : ρ} (h : q s = some r) :
    Ends d (getRow t q) ids s now start (.ok r) ids id := by
  refine Ends.look (ends_fetch q) ?_
  rw [h]
  exact Ends.ret r

theorem ends_getRow_none {t : Table} {q : Store → Option ρ} (h : q s = none) :
    Ends d (getRow t q) ids s now start (.error (.doesNotExist t)) ids id := by
  refine Ends.look (ends_fetch q) ?_
  rw [h]
  exact Ends.raise _

/-- An update ends with its change. -/
theorem ends_updateRows (t : Table) (pks : List Nat) (f : Store → Store) :
    Ends d (updateRows t pks f) ids s now start (.ok ()) ids f :=
  Ends.look (Ends.acquireAll _) (Ends.write f)

/-- A deletion removes the rows that match now. -/
theorem ends_deleteRows (t : Table) (rows : Store → List ρ) (pk : ρ → Nat)
    (p : ρ → Bool) (remove : List Nat → Store → Store) :
    Ends d (deleteRows t rows pk p remove) ids s now start (.ok ()) ids
      (remove (((rows s).filter p).map pk)) :=
  Ends.look (ends_fetch _) (Ends.look (Ends.acquireAll _) (Ends.write _))

/-- An insertion whose keys are free ends with its row. -/
theorem ends_insertRow {keys : List Index} (f : Store → Store)
    (h : ∀ i ∈ keys, i.present s = false) :
    Ends d (insertRow keys f) ids s now start (.ok ()) ids f := by
  refine Ends.look (Ends.acquireAll _) (Ends.look (ends_fetch _)
    (Ends.look (Ends.raiseIf_false ?_) (Ends.write f)))
  rw [List.any_eq_false]
  intro i hi
  rw [h i hi]
  exact Bool.false_ne_true

/-- An `INSERT` of a key that somebody has. -/
theorem ends_insertRow_taken {keys : List Index} (f : Store → Store) {i : Index}
    (hi : i ∈ keys) (h : i.present s = true) :
    Ends d (insertRow keys f) ids s now start (.error .integrityError) ids id :=
  Ends.look (Ends.acquireAll _) (Ends.look (ends_fetch _)
    (Ends.bindError (Ends.raiseIf_true (List.any_eq_true.mpr ⟨i, hi, h⟩))))

/-- `get_or_create` of a row that is there. -/
theorem ends_getOrCreate_found {find : M (Option ρ)} {create : M ρ} {r : ρ}
    (h : Ends d find ids s now start (.ok (some r)) ids id) :
    Ends d (getOrCreate find create) ids s now start (.ok (r, false)) ids id :=
  Ends.look h (Ends.ret _)

/-- `get_or_create` of a row that is not there. -/
theorem ends_getOrCreate_created {find : M (Option ρ)} {create : M ρ} {r : ρ}
    {g : Store → Store} (h : Ends d find ids s now start (.ok none) ids id)
    (hc : Ends d create ids s now start (.ok r) ids' g) :
    Ends d (getOrCreate find create) ids s now start (.ok (r, true)) ids' g :=
  Ends.look h (Ends.tryOk (Ends.bindLook (Ends.savepoint hc) (Ends.ret _)))

/-! ## Calls -/

/-- What a session answered, if it did. -/
def answered {α : Type} : M α → Option (Except Exn α)
  | .ret a => some (.ok a)
  | .raise e => some (.error e)
  | _ => none

theorem answered_eq {α : Type} {m : M α} {r : Except Exn α} (h : answered m = some r) :
    m = Prog.ofAnswer r := by
  cases m with
  | ret a => cases h; rfl
  | raise e => cases h; rfl
  | _ => exact nomatch h

/-- A transaction that answers leaves what it wrote. -/
theorem call_ok {m : M α} {a : α} {g : Store → Store}
    (h : Ends validateBalancedJournal m ids s now now (.ok a) ids' g)
    (hd : validateBalancedJournal s (g s) = none) :
    call (atomic m) ids now s = (.ok a, g s) := by
  obtain ⟨w, hrun, hdb⟩ := h.transaction hd
  rw [call, atomic, hrun.run, hdb]

/-- A transaction that raises leaves the store as it was. -/
theorem call_error {m : M α} {e : Exn} {g : Store → Store}
    (h : Ends validateBalancedJournal m ids s now now (.error e) ids' g) :
    call (atomic m) ids now s = (.error e, s) := by
  obtain ⟨w, hrun, hdb⟩ := h.transactionError
  rw [call, atomic, hrun.run, hdb]

/-- A handled transaction that raises, where the handler raises too. -/
theorem call_tryCatch_error {m : M α} {f : Exn → M α} {e e' : Exn} {g : Store → Store}
    (h : Ends validateBalancedJournal m ids s now now (.error e) ids' g)
    (hf : f e = raise e') :
    call (Prog.tryCatch (atomic m) f) ids now s = (.error e', s) := by
  obtain ⟨w, hrun, hdb⟩ := h.transactionError
  have h' : (Prog.tryCatch (atomic m) f).run validateBalancedJournal ids ⟨s, now, {}⟩ =
      (f e).run validateBalancedJournal ids' w := hrun _
  rw [call, h', hf, ← hdb]
  rfl

/-- A handled transaction that answers. -/
theorem call_tryCatch_ok {m : M α} {f : Exn → M α} {a : α} {g : Store → Store}
    (h : Ends validateBalancedJournal m ids s now now (.ok a) ids' g)
    (hd : validateBalancedJournal s (g s) = none) :
    call (Prog.tryCatch (atomic m) f) ids now s = (.ok a, g s) := by
  obtain ⟨w, hrun, hdb⟩ := h.transaction hd
  have h' : (Prog.tryCatch (atomic m) f).run validateBalancedJournal ids ⟨s, now, {}⟩ =
      (Prog.ret a).run validateBalancedJournal ids' w := hrun _
  rw [call, h', ← hdb]
  rfl

/-- Nothing new in the ledger is nothing to check. -/
theorem validateBalancedJournal_same {s s' : Store} (hj : s'.journals = s.journals)
    (he : s'.entries = s.entries) : validateBalancedJournal s s' = none := by
  simp only [validateBalancedJournal, hj, he, List.drop_length, List.map_nil,
    List.append_nil, List.all_nil, if_true]

/-- A transaction that writes nothing. -/
theorem call_look {m : M α} {a : α}
    (h : Ends validateBalancedJournal m ids s now now (.ok a) ids' id) :
    call (atomic m) ids now s = (.ok a, s) :=
  call_ok h (validateBalancedJournal_same rfl rfl)

end Market
