import Marketplace.CallRules
import Marketplace.StatementRules
import Marketplace.TxnAlone

/-! # The statements of a call that has the database to itself

    The statements of `Store` for `Asks` and `Does`: what they answer is what the store
    says, and what they leave is the store with one write. -/

namespace Market

open TxnProgram TxnInterleaving TxnLogic TxnBody TxnAlone

variable {α ρ : Type} {s : Store} {F : Exn → Prop}

/-- The database, with nobody else in it. -/
abbrev ownDatabase : Database Store Lock Exn := postgres fun _ _ => False

/-- A query answers what is in the store. -/
theorem asks_fetch (hF : FaultsOf ownDatabase F) (q : Store → α) :
    Asks ownDatabase (fetch q) s (fun a => a = q s) F :=
  (Asks.select hF _).mono fun _ ⟨_, ha⟩ => ha

/-- Any time may be read; the store is not. -/
theorem asks_clockTimestamp (hF : FaultsOf ownDatabase F) :
    Asks ownDatabase clockTimestamp s (fun _ => True) F :=
  (Asks.select hF _).mono fun _ _ => trivial

theorem asks_currentTimestamp (hF : FaultsOf ownDatabase F) :
    Asks ownDatabase currentTimestamp s (fun _ => True) F :=
  (Asks.select hF _).mono fun _ _ => trivial

theorem asks_timezoneNow : Asks ownDatabase timezoneNow s (fun _ => True) F := Asks.fresh

/-- A check that passes leaves its condition false. -/
theorem asks_raiseIf {c : Bool} {e : Exn} (h : c = true → F e) :
    Asks ownDatabase (raiseIf c e) s (fun _ => c = false) F := Asks.raiseIf h

/-- A locking query answers the rows of its filter. -/
theorem asks_selectForUpdate (hF : FaultsOf ownDatabase F) (t : Table)
    (rows : Store → List ρ) (pk : ρ → Nat) (p : ρ → Bool) :
    Asks ownDatabase (selectForUpdate t rows pk p) s (fun found => found = (rows s).filter p)
      F := by
  refine Asks.bind (asks_fetch hF _) fun found hfound => ?_
  refine Asks.bind (Asks.acquireAll hF _) fun _ _ => (asks_fetch hF _).mono fun again hagain => ?_
  rw [hagain, hfound, filter_found]

/-- The first row of the filter, if there is one. -/
theorem asks_firstForUpdate (hF : FaultsOf ownDatabase F) (t : Table)
    (rows : Store → List ρ) (pk : ρ → Nat) (p : ρ → Bool) :
    Asks ownDatabase (firstForUpdate t rows pk p) s (fun r => r = (rows s).find? p) F := by
  refine Asks.bind (asks_selectForUpdate hF t rows pk p) fun found hfound => Asks.ret ?_
  rw [hfound, List.head?_filter]

/-- `get` answers the row, or raises `DoesNotExist`. -/
theorem asks_getForUpdate (hF : FaultsOf ownDatabase F) (t : Table)
    (rows : Store → List ρ) (pk : ρ → Nat) (p : ρ → Bool)
    (hnone : (rows s).find? p = none → F (.doesNotExist t)) :
    Asks ownDatabase (getForUpdate t rows pk p) s (fun r => (rows s).find? p = some r) F := by
  refine Asks.bind (asks_firstForUpdate hF t rows pk p) fun r hr => ?_
  cases r with
  | some r => exact Asks.ret hr.symm
  | none => exact Asks.raise (hnone hr.symm)

/-- `get` of a row by any query. -/
theorem asks_getRow (hF : FaultsOf ownDatabase F) (t : Table) (q : Store → Option ρ)
    (hnone : q s = none → F (.doesNotExist t)) :
    Asks ownDatabase (getRow t q) s (fun r => q s = some r) F := by
  refine Asks.bind (asks_fetch hF q) fun r hr => ?_
  cases r with
  | some r => exact Asks.ret hr.symm
  | none => exact Asks.raise (hnone hr.symm)

/-- An update has its effect, whatever the rows. -/
theorem does_updateRows (hF : FaultsOf ownDatabase F) (t : Table) (pks : List Nat)
    (f : Store → Store) :
    Does ownDatabase (updateRows t pks f) s (fun _ s' => s' = f s) F :=
  Does.look (Asks.acquireAll hF _) fun _ _ => Does.write hF f

/-- A delete removes the rows that its filter found. -/
theorem does_deleteRows (hF : FaultsOf ownDatabase F) (t : Table) (rows : Store → List ρ)
    (pk : ρ → Nat) (p : ρ → Bool) (remove : List Nat → Store → Store) :
    Does ownDatabase (deleteRows t rows pk p remove) s
      (fun _ s' => s' = remove (((rows s).filter p).map pk) s) F := by
  refine Does.look (asks_fetch hF _) fun found hfound => ?_
  refine Does.look (Asks.acquireAll hF _) fun _ _ => (Does.write hF _).mono fun _ s' hs => ?_
  rw [hs, hfound]

/-- An insert has its effect if its keys are free, and is an integrity error otherwise. -/
theorem does_insertRow (hF : FaultsOf ownDatabase F) (hdup : F .integrityError)
    (keys : List Index) (f : Store → Store) :
    Does ownDatabase (insertRow keys f) s
      (fun _ s' => (∀ i ∈ keys, i.present s = false) ∧ s' = f s) F := by
  refine Does.look (Asks.acquireAll hF _) fun _ _ => ?_
  refine Does.look (asks_fetch hF _) fun taken htaken => ?_
  refine Does.look (asks_raiseIf fun _ => hdup) fun _ hfree =>
    (Does.write hF f).mono fun _ s' hs => ⟨fun i hi => ?_, hs⟩
  rw [htaken] at hfree
  exact Bool.eq_false_iff.mpr fun hp =>
    absurd (List.any_eq_true.mpr ⟨i, hi, hp⟩) (Bool.eq_false_iff.mp hfree)

/-- `get_or_create`, alone: the row that is there, or the one that is created. -/
theorem does_getOrCreate (hF : FaultsOf ownDatabase F) (hdup : F .integrityError)
    {find : M (Option ρ)} {create : M ρ} {x : Option ρ} {P : ρ × Bool → Store → Prop}
    (hfind : Asks ownDatabase find s (fun r => r = x) F)
    (hfound : ∀ a, x = some a → P (a, false) s)
    (hcreate : x = none → Does ownDatabase create s (fun a s' => P (a, true) s') F) :
    Does ownDatabase (getOrCreate find create) s P F := by
  refine Does.look hfind fun r hr => ?_
  cases r with
  | some a => exact Does.ret (hfound a hr.symm)
  | none =>
      have again : ∀ f : Option ρ → M (ρ × Bool), (∀ a, f (some a) = pure (a, false)) →
          f none = raise .integrityError → Does ownDatabase (find >>= f) s P F := by
        intro f hsome hnone
        refine Does.look hfind fun r hr' => ?_
        cases r with
        | some a =>
            rw [hsome]
            exact Does.ret (hfound a hr'.symm)
        | none =>
            rw [hnone]
            exact Does.raise hdup
      intro w hw ho
      refine wp_tryCatch (wp_bind (wp_savepoint (G := F) (P := fun _ a w' => P (a, true) w'.view)
        (solo_lawful _) ho (fun w' he => ?_) hF ?_ ?_))
      · refine hcreate hr.symm w'.begin ((view_of_env he).trans hw) ?_
        rw [World.begin_frames]
        exact List.cons_ne_nil _ _
      · intro e w3 he hs3
        show wp _ _ _ w3
        cases e with
        | integrityError =>
            have hopen3 : w3.sess.frames ≠ [] := by
              rw [hs3.frames]
              exact ho
            refine wp_mono ?_ (again _ (fun _ => rfl) rfl w3 ((view_of_still hs3).trans hw) hopen3)
            rintro r w5 ⟨hw5, hr5⟩
            exact ⟨(hs3.within (solo_lawful _)).trans (solo_lawful _) hw5, hr5⟩
        | _ => exact ⟨hs3.within (solo_lawful _), he⟩
      · intro w' a w2 w3 he _ ha he3 hwr
        refine ⟨hwr, ?_⟩
        show P (a, true) w3.release.view
        rw [release_view, view_of_env he3]
        exact ha

end Market
