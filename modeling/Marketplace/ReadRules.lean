import Marketplace.CallRules
import Marketplace.TxnMoments

/-! # The statements of a call that only reads

    The statements of `Store` for `Finds`: what they answer is what the store says at some
    moment.  A locking query reads twice, before and after it has its locks. -/

namespace Market

open TxnProgram TxnInterleaving TxnMoments

variable {α ρ : Type} {R : Time → Store → Prop} {F G : Exn → Prop}

/-- A query answers by the store at one moment. -/
theorem finds_fetch (hF : ∀ e, F e → G e) (q : Store → α) :
    Finds R F (fetch q) (fun a => ∃ t s, R t s ∧ a = q s) G := by
  refine (Finds.select hF _).mono ?_ fun _ he => he
  rintro _ ⟨_, t, s, hs, rfl⟩
  exact ⟨t, s, hs, rfl⟩

/-- A query with the clock answers by the store and the time of one moment. -/
theorem finds_fetchNow (hF : ∀ e, F e → G e) (q : Time → Store → α) :
    Finds R F (fetchNow q) (fun a => ∃ t s, R t s ∧ a = q t s) G := by
  refine (Finds.select hF _).mono ?_ fun _ he => he
  rintro _ ⟨_, t, s, hs, rfl⟩
  exact ⟨t, s, hs, rfl⟩

/-- The clock is that of one moment. -/
theorem finds_clockTimestamp (hF : ∀ e, F e → G e) :
    Finds R F clockTimestamp (fun t => ∃ s, R t s) G := by
  refine (Finds.select hF _).mono ?_ fun _ he => he
  rintro _ ⟨_, t, s, hs, rfl⟩
  exact ⟨s, hs⟩

/-- Past a guard its condition is false. -/
theorem finds_raiseIf {c : Bool} {e : Exn} (h : c = true → G e) :
    Finds R F (raiseIf c e) (fun _ => c = false) G := Finds.raiseIf h

/-- The database fails with an `OperationalError` only. -/
def Operational (F : Exn → Prop) : Prop := ∀ e, F e → ∃ sqlstate, e = .operationalError sqlstate

/-- A fault of the database, or a row that is not there for the reason `Q`. -/
def Misses (F : Exn → Prop) (Q : Prop) (e : Exn) : Prop :=
  F e ∨ (∃ t, e = .doesNotExist t) ∧ Q

/-- A fault of the database is one of the errors of a query. -/
theorem misses_fault {Q : Prop} : ∀ e, F e → Misses F Q e := fun _ => Or.inl

/-- `except DoesNotExist` raises `x` in its place, for the same reason. -/
theorem finds_exceptMissing {m : M α} {P : α → Prop} {Q : Prop} {x : Exn} (hop : Operational F)
    (hm : Finds R F m P (Misses F Q)) (hF : ∀ e, F e → G e) (hx : Q → G x) :
    Finds R F (Prog.tryCatch m fun | .doesNotExist _ => raise x | e => raise e) P G := by
  refine Finds.tryCatch hm ?_
  rintro e (he | ⟨⟨t, rfl⟩, hq⟩)
  · obtain ⟨sqlstate, rfl⟩ := hop e he
    exact Finds.raise (hF _ he)
  · exact Finds.raise (hx hq)

/-- The rows that a locking query found are in their table when it has its locks. -/
theorem finds_selectForUpdate (hF : ∀ e, F e → G e) (t : Table) (rows : Store → List ρ)
    (pk : ρ → Nat) (p : ρ → Bool) :
    Finds R F (selectForUpdate t rows pk p) (fun found => ∃ now s now' s', R now s ∧ R now' s' ∧
      found = (rows s').filter fun r => p r && (((rows s).filter p).map pk).contains (pk r)) G := by
  refine Finds.bind (finds_fetch hF _) ?_
  rintro _ ⟨now, s, hs, rfl⟩
  refine Finds.bind (Finds.acquireAll hF _) fun _ _ => (finds_fetch hF _).mono ?_ fun _ he => he
  rintro found ⟨now', s', hs', rfl⟩
  exact ⟨now, s, now', s', hs, hs', rfl⟩

/-- A locking query of a table that is the same at all moments. -/
theorem finds_selectForUpdate_same (hF : ∀ e, F e → G e) (t : Table) (rows : Store → List ρ)
    (pk : ρ → Nat) (p : ρ → Bool) {l : List ρ} (hsame : ∀ now s, R now s → rows s = l) :
    Finds R F (selectForUpdate t rows pk p)
      (fun found => found = l.filter p ∧ ∃ now s, R now s) G := by
  refine (finds_selectForUpdate hF t rows pk p).mono ?_ fun _ he => he
  rintro found ⟨now, s, now', s', hs, hs', rfl⟩
  rw [hsame now s hs, hsame now' s' hs', filter_found]
  exact ⟨rfl, now, s, hs⟩

/-- `.first()` of a locking query by a key: a row that satisfies the condition at a moment,
    or none when there is none at some moment. -/
theorem finds_firstForUpdate (hF : ∀ e, F e → G e) (t : Table) (rows : Store → List ρ)
    (pk : ρ → Nat) (p : ρ → Bool) (hkey : ∀ x y, p x = true → p y = true → pk x = pk y) :
    Finds R F (firstForUpdate t rows pk p) (fun x =>
      (∀ r, x = some r → ∃ now s, R now s ∧ r ∈ rows s ∧ p r = true) ∧
      (x = none → ∃ now s, R now s ∧ ∀ r ∈ rows s, p r = false)) G := by
  refine Finds.bind (finds_selectForUpdate hF t rows pk p) ?_
  rintro _ ⟨now, s, now', s', hs, hs', rfl⟩
  refine Finds.ret ⟨fun r hr => ?_, fun hnone => ?_⟩
  · have hmem := List.mem_filter.mp (List.mem_of_mem_head? hr)
    rw [Bool.and_eq_true] at hmem
    exact ⟨now', s', hs', hmem.1, hmem.2.1⟩
  · by_cases hfound : ∃ r ∈ rows s, p r = true
    · -- a row that satisfies the condition has the key of the one that was found
      obtain ⟨r, hr, hp⟩ := hfound
      rw [List.head?_eq_none_iff, List.filter_eq_nil_iff] at hnone
      refine ⟨now', s', hs', fun x hx => ?_⟩
      by_contra hpx
      rw [Bool.not_eq_false] at hpx
      refine hnone x hx ?_
      rw [hpx, Bool.true_and, List.contains_iff_mem, hkey x r hpx hp]
      exact List.mem_map_of_mem (List.mem_filter.mpr ⟨hr, hp⟩)
    · refine ⟨now, s, hs, fun r hr => ?_⟩
      by_contra hp
      rw [Bool.not_eq_false] at hp
      exact hfound ⟨r, hr, hp⟩

/-- `.get()` of what the store has, or does not have, at some moment. -/
theorem finds_getRow {Q : Prop} (t : Table) (q : Store → Option ρ)
    (hnone : ∀ now s, R now s → q s = none → Q) :
    Finds R F (getRow t q) (fun r => Sometime R fun _ s => q s = some r) (Misses F Q) := by
  refine Finds.bind (finds_fetch misses_fault _) ?_
  rintro x ⟨now, s, hs, hx⟩
  cases x with
  | some r => exact Finds.ret ⟨now, s, hs, hx.symm⟩
  | none => exact Finds.raise (Or.inr ⟨⟨t, rfl⟩, hnone now s hs hx.symm⟩)

/-- `.get()` of a locking query of a table that is the same at all moments. -/
theorem finds_getForUpdate_same {Q : Prop} (t : Table) (rows : Store → List ρ) (pk : ρ → Nat)
    (p : ρ → Bool) {l : List ρ} (hsame : ∀ now s, R now s → rows s = l)
    (hnone : ∀ now s, R now s → l.find? p = none → Q) :
    Finds R F (getForUpdate t rows pk p) (fun r => l.find? p = some r) (Misses F Q) := by
  refine Finds.bind (Finds.bind (finds_selectForUpdate_same misses_fault t rows pk p hsame)
    fun found hfound => Finds.ret (P := fun x => x = l.find? p ∧ ∃ now s, R now s) ?_) ?_
  · rw [hfound.1, List.head?_filter]
    exact ⟨rfl, hfound.2⟩
  · rintro x ⟨hx, now, s, hs⟩
    cases x with
    | some r => exact Finds.ret hx.symm
    | none => exact Finds.raise (Or.inr ⟨⟨t, rfl⟩, hnone now s hs hx.symm⟩)

/-- `.get()` of a locking query by a key: the row at a moment, or no row at some moment. -/
theorem finds_getForUpdate (t : Table) (rows : Store → List ρ) (pk : ρ → Nat) (p : ρ → Bool)
    (hkey : ∀ x y, p x = true → p y = true → pk x = pk y) :
    Finds R F (getForUpdate t rows pk p)
      (fun r => p r = true ∧ Sometime R fun _ s => (rows s).any p = true)
      (Misses F (Sometime R fun _ s => (rows s).any p = false)) := by
  refine Finds.bind (finds_firstForUpdate misses_fault t rows pk p hkey) ?_
  rintro (x | r) ⟨hsome, hnone⟩
  · obtain ⟨now, s, hs, hgone⟩ := hnone rfl
    refine Finds.raise (Or.inr ⟨⟨t, rfl⟩, now, s, hs, List.any_eq_false.mpr fun r hr => ?_⟩)
    exact Bool.eq_false_iff.mp (hgone r hr)
  · obtain ⟨now, s, hs, hr, hp⟩ := hsome r rfl
    exact Finds.ret ⟨hp, now, s, hs, List.any_eq_true.mpr ⟨r, hr, hp⟩⟩

/-- A call that reads only and has the database to itself. -/
theorem reads_call {m : M α} (ids : Nat → Nat) {t : Time} {s : Store}
    {Q : Except Exn α → Prop} (h : Reads R F m Q) (hs : R t s) :
    Q (call m ids t s).1 ∧ (call m ids t s).2 = s :=
  reads_run (w := ⟨s, t, {}⟩)
    (fun _ => validateBalancedJournal_same rfl rfl) ids hs unwritten_idle h

end Market
