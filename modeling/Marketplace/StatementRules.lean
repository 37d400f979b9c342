import Mathlib.Data.List.Basic
import Marketplace.Store
import Marketplace.TxnBody

/-! # Rules for the statements of the services

    One rule for each statement of `Store`: what it tells the rest of a body about
    the rows it returned and the locks it took. -/

namespace Market

open TxnProgram TxnLogic TxnBody

variable {Γ : Ctx Store Lock Exn Obs} {w : World Store Lock Obs} {F : Exn → Prop}
  {α ρ : Type}

theorem look_fetch (hF : Faults Γ F) (q : Store → α) :
    Look Γ (fetch q) w (fun a w' => a = q w'.view) F := Look.select hF _

theorem look_fetchNow (hF : Faults Γ F) (q : Time → Store → α) :
    Look Γ (fetchNow q) w (fun a w' => a = q w'.now w'.view) F := Look.select hF _

theorem look_clockTimestamp (hF : Faults Γ F) :
    Look Γ clockTimestamp w (fun a w' => a = w'.now) F := Look.select hF _

theorem look_currentTimestamp (hF : Faults Γ F) :
    Look Γ currentTimestamp w (fun a w' => a = w'.sess.start) F := Look.select hF _

/-- What a locking query returns: the rows found by the first look that still
    satisfy the condition under their locks. -/
structure LockedRows (Γ : Ctx Store Lock Exn Obs) (w : World Store Lock Obs)
    (t : Table) (rows : Store → List ρ) (pk : ρ → Nat) (p : ρ → Bool)
    (found : List ρ) (w' : World Store Lock Obs) : Prop where
  result : ∃ w1, Still Γ w w1 ∧ Still Γ w1 w' ∧
    found = (rows w'.view).filter fun r =>
      p r && (((rows w1.view).filter p).map pk).contains (pk r)
  held : ∀ r ∈ found, .row t (pk r) ∈ w'.sess.held

theorem LockedRows.mem {t : Table} {rows : Store → List ρ} {pk : ρ → Nat}
    {p : ρ → Bool} {found : List ρ} {w' : World Store Lock Obs}
    (h : LockedRows Γ w t rows pk p found w') {r : ρ} (hr : r ∈ found) :
    r ∈ rows w'.view ∧ p r = true := by
  obtain ⟨w1, -, -, hfound⟩ := h.result
  rw [hfound, List.mem_filter, Bool.and_eq_true] at hr
  exact ⟨hr.1, hr.2.1⟩

theorem look_selectForUpdate (hΓ : Lawful Γ) (hF : Faults Γ F) (t : Table)
    (rows : Store → List ρ) (pk : ρ → Nat) (p : ρ → Bool) :
    Look Γ (selectForUpdate t rows pk p) w
      (fun found w' => LockedRows Γ w t rows pk p found w') F := by
  refine Look.bind hΓ (look_fetch hF _) fun found w1 hs1 hfound => ?_
  refine Look.bind hΓ (Look.acquireAll hΓ hF _) fun _ w2 hs2 hlocks => ?_
  refine Look.mono (look_fetch hF _) fun rs w3 hs3 hrs => ?_
  have hs13 : Still Γ w1 w3 := hs2.trans hΓ hs3
  refine ⟨⟨w1, hs1, hs13, by rw [hrs, hfound]⟩, fun r hr => hs3.held ?_⟩
  rw [hrs, List.mem_filter, Bool.and_eq_true, List.contains_iff_mem, List.mem_map] at hr
  obtain ⟨x, hx, hpk⟩ := hr.2.2
  exact hlocks _ (List.mem_map.mpr ⟨x, hx, by rw [hpk]⟩)

/-- What `.first()` of a locking query tells. -/
def LockedFirst (Γ : Ctx Store Lock Exn Obs) (w : World Store Lock Obs)
    (t : Table) (rows : Store → List ρ) (pk : ρ → Nat) (p : ρ → Bool)
    (r : Option ρ) (w' : World Store Lock Obs) : Prop :=
  match r with
  | some r => r ∈ rows w'.view ∧ p r = true ∧ .row t (pk r) ∈ w'.sess.held
  | none => ∃ w1, Still Γ w w1 ∧ Still Γ w1 w' ∧
      ∀ r ∈ rows w'.view, p r = true → ∀ x ∈ rows w1.view, p x = true → pk x ≠ pk r

theorem look_firstForUpdate (hΓ : Lawful Γ) (hF : Faults Γ F) (t : Table)
    (rows : Store → List ρ) (pk : ρ → Nat) (p : ρ → Bool) :
    Look Γ (firstForUpdate t rows pk p) w
      (fun r w' => LockedFirst Γ w t rows pk p r w') F := by
  refine Look.bind hΓ (look_selectForUpdate hΓ hF t rows pk p) fun found w1 hs1 h => ?_
  refine Look.ret hΓ ?_
  cases hhead : found.head? with
  | some r =>
      have hr : r ∈ found := List.mem_of_mem_head? hhead
      exact ⟨(h.mem hr).1, (h.mem hr).2, h.held r hr⟩
  | none =>
      obtain ⟨w0, h0, h01, hfound⟩ := h.result
      rw [List.head?_eq_none_iff.mp hhead] at hfound
      refine ⟨w0, h0, h01, fun r hr hp x hx hpx heq => ?_⟩
      have := List.filter_eq_nil_iff.mp hfound.symm r hr
      apply this
      rw [hp, Bool.true_and, List.contains_iff_mem, ← heq]
      exact List.mem_map.mpr ⟨x, List.mem_filter.mpr ⟨hx, hpx⟩, rfl⟩

/-- `.get()` of a locking query. -/
theorem look_getForUpdate (hΓ : Lawful Γ) (hF : Faults Γ F) (t : Table)
    (rows : Store → List ρ) (pk : ρ → Nat) (p : ρ → Bool)
    (hnone : F (.doesNotExist t)) :
    Look Γ (getForUpdate t rows pk p) w
      (fun r w' => r ∈ rows w'.view ∧ p r = true ∧ .row t (pk r) ∈ w'.sess.held) F := by
  refine Look.bind hΓ (look_firstForUpdate hΓ hF t rows pk p) fun r w1 hs1 h => ?_
  cases r with
  | some r => exact Look.ret hΓ h
  | none => exact Look.raise hΓ hnone

/-- `.get()` of a locking query that has a row of one primary key to find, whatever the
    others do: only the database may fail. -/
theorem look_getForUpdate_found (hΓ : Lawful Γ) (hF : Faults Γ F) (t : Table)
    (rows : Store → List ρ) (pk : ρ → Nat) (p : ρ → Bool) (n : Nat)
    (hfound : ∀ w', Still Γ w w' → ∃ r ∈ rows w'.view, p r = true ∧ pk r = n) :
    Look Γ (getForUpdate t rows pk p) w
      (fun r w' => r ∈ rows w'.view ∧ p r = true ∧ .row t (pk r) ∈ w'.sess.held) F := by
  refine Look.bind hΓ (look_firstForUpdate hΓ hF t rows pk p) fun r w1 hs1 h => ?_
  cases r with
  | some r => exact Look.ret hΓ h
  | none =>
      obtain ⟨w0, h0, -, hnone⟩ := h
      obtain ⟨r, hr, hp, hpk⟩ := hfound w1 hs1
      obtain ⟨x, hx, hpx, hpkx⟩ := hfound w0 h0
      exact absurd (hpkx.trans hpk.symm) (hnone r hr hp x hx hpx)

/-- The database fails a statement with errors of its own only. -/
def OperationalFaults (Γ : Ctx Store Lock Exn Obs) : Prop :=
  ∀ e, Γ.fault e → ∃ sqlstate, e = .operationalError sqlstate

/-- `.get()` of a locking query for a key, with a handler for `DoesNotExist`: it finds the
    row, if one is there at the start and stays. -/
theorem look_lockRow (hΓ : Lawful Γ) (hop : OperationalFaults Γ) (hF : Faults Γ F) (t : Table)
    (rows : Store → List ρ) (pk : ρ → Nat) (n : Nat) {e0 : Exn} {h : Exn → M ρ}
    (hnone : h (.doesNotExist t) = raise e0)
    (hfault : ∀ sqlstate, h (.operationalError sqlstate) = raise (.operationalError sqlstate))
    (hstays : (∃ r ∈ rows w.view, pk r = n) → ∀ w', Still Γ w w' → ∃ r ∈ rows w'.view, pk r = n)
    (hmissing : (∀ r ∈ rows w.view, pk r ≠ n) → F e0) :
    Look Γ (Prog.tryCatch (getForUpdate t rows pk (pk · == n)) h) w
      (fun r w' => r ∈ rows w'.view ∧ pk r = n ∧ .row t n ∈ w'.sess.held) F := by
  have hlocked : ∀ (r : ρ) (w' : World Store Lock Obs), Still Γ w w' →
      r ∈ rows w'.view ∧ (pk r == n) = true ∧ .row t (pk r) ∈ w'.sess.held →
      r ∈ rows w'.view ∧ pk r = n ∧ .row t n ∈ w'.sess.held := by
    rintro r w' - ⟨hr, hpk, hl⟩
    have hpk' := beq_iff_eq.mp hpk
    rw [hpk'] at hl
    exact ⟨hr, hpk', hl⟩
  by_cases hex : ∃ r ∈ rows w.view, pk r = n
  · have hfound := look_getForUpdate_found (F := Γ.fault) (w := w) hΓ (fun _ he => he) t rows pk
      (pk · == n) n fun w' hs => by
        obtain ⟨r, hr, hpk⟩ := hstays hex w' hs
        exact ⟨r, hr, beq_iff_eq.mpr hpk, hpk⟩
    refine Look.tryCatch hΓ (hfound.mono hlocked) fun e w' _ he => ?_
    obtain ⟨sqlstate, rfl⟩ := hop e he
    rw [hfault]
    exact Look.raise hΓ (hF _ he)
  · have hfound := look_getForUpdate (F := fun e => Γ.fault e ∨ e = .doesNotExist t) (w := w) hΓ
      (fun _ he => Or.inl he) t rows pk (pk · == n) (Or.inr rfl)
    refine Look.tryCatch hΓ (hfound.mono hlocked) fun e w' _ he => ?_
    rcases he with he | rfl
    · obtain ⟨sqlstate, rfl⟩ := hop e he
      rw [hfault]
      exact Look.raise hΓ (hF _ he)
    · rw [hnone]
      exact Look.raise hΓ (hmissing fun r hr hpk => hex ⟨r, hr, hpk⟩)

/-- `.get()`. -/
theorem look_getRow (hΓ : Lawful Γ) (hF : Faults Γ F) (t : Table)
    (q : Store → Option ρ) (hnone : F (.doesNotExist t)) :
    Look Γ (getRow t q) w (fun r w' => q w'.view = some r) F := by
  refine Look.bind hΓ (look_fetch hF q) fun r w1 hs1 h => ?_
  cases r with
  | some r => exact Look.ret hΓ h.symm
  | none => exact Look.raise hΓ hnone

/-- `.get()` that has a row to find, whatever the others do. -/
theorem look_getRow_found (hΓ : Lawful Γ) (hF : Faults Γ F) (t : Table)
    (q : Store → Option ρ) (hfound : ∀ w', Still Γ w w' → (q w'.view).isSome = true) :
    Look Γ (getRow t q) w (fun r w' => q w'.view = some r) F := by
  refine Look.bind hΓ (look_fetch hF q) fun r w1 hs1 h => ?_
  cases r with
  | some r => exact Look.ret hΓ h.symm
  | none =>
      have hsome := hfound w1 hs1
      rw [← h] at hsome
      exact nomatch hsome

theorem look_raiseIf (hΓ : Lawful Γ) {c : Bool} {e : Exn} (h : c = true → F e) :
    Look Γ (raiseIf c e) w (fun _ _ => c = false) F := Look.raiseIf hΓ h

/-- What an accepted `INSERT` tells: nobody had the keys, and they are held. -/
structure Inserted (Γ : Ctx Store Lock Exn Obs) (w : World Store Lock Obs)
    (keys : List Index) (f : Store → Store) (w' : World Store Lock Obs) : Prop where
  pend : w'.sess.pend = fun s => f (w.sess.pend s)
  free : ∃ w1, Still Γ w w1 ∧ Within Γ w1 w' ∧
    (∀ i ∈ keys, .unique i ∈ w1.sess.held) ∧ ∀ i ∈ keys, i.present w1.view = false

/-- An `INSERT` that is refused only when a row with one of the keys is there. -/
theorem body_insertRow_of (hΓ : Lawful Γ) (hF : Faults Γ F) {keys : List Index}
    {f : Store → Store}
    (hdup : ∀ w', Still Γ w w' → (∃ i ∈ keys, i.present w'.view = true) → F .integrityError)
    (hf : ∀ held, w.sess.held ⊆ held → (∀ i ∈ keys, .unique i ∈ held) →
      ∀ s, Γ.leave held s (f s)) :
    Body Γ (insertRow keys f) w (fun _ w' => Inserted Γ w keys f w') F := by
  refine Body.look hΓ (Look.acquireAll hΓ hF _) fun _ w1 hs1 hlocks => ?_
  refine Body.look hΓ (look_fetch hF _) fun taken w2 hs2 htaken => ?_
  refine Body.look hΓ (look_raiseIf hΓ fun ht => hdup w2 (hs1.trans hΓ hs2) ?_)
    fun _ w3 hs3 hfree => ?_
  · rw [ht] at htaken
    exact List.any_eq_true.mp htaken.symm
  have hs13 : Still Γ w1 w3 := hs2.trans hΓ hs3
  have hheld : ∀ i ∈ keys, .unique i ∈ w2.sess.held := fun i hi =>
    hs2.held (hlocks _ (List.mem_map.mpr ⟨i, hi, rfl⟩))
  refine Body.mono (Body.write hΓ hF (hf _ (fun _ hl => hs13.held (hs1.held hl))
    fun i hi => hs3.held (hheld i hi))) fun _ w4 hw4 hpend => ?_
  refine ⟨?_, w2, hs1.trans hΓ hs2, (hs3.within hΓ).trans hΓ hw4, hheld, ?_⟩
  · rw [hpend, (hs1.trans hΓ hs13).pend]
  · intro i hi
    rw [htaken] at hfree
    exact Bool.eq_false_iff.mpr fun hp =>
      absurd (List.any_eq_true.mpr ⟨i, hi, hp⟩) (Bool.eq_false_iff.mp hfree)

theorem body_insertRow (hΓ : Lawful Γ) (hF : Faults Γ F) (hdup : F .integrityError)
    {keys : List Index} {f : Store → Store}
    (hf : ∀ held, w.sess.held ⊆ held → (∀ i ∈ keys, .unique i ∈ held) →
      ∀ s, Γ.leave held s (f s)) :
    Body Γ (insertRow keys f) w (fun _ w' => Inserted Γ w keys f w') F :=
  body_insertRow_of hΓ hF (fun _ _ _ => hdup) hf

theorem body_updateRows (hΓ : Lawful Γ) (hF : Faults Γ F) {t : Table}
    {pks : List Nat} {f : Store → Store}
    (hf : ∀ held, w.sess.held ⊆ held → (∀ n ∈ pks, .row t n ∈ held) →
      ∀ s, Γ.leave held s (f s)) :
    Body Γ (updateRows t pks f) w
      (fun _ w' => w'.sess.pend = (fun s => f (w.sess.pend s)) ∧
        ∀ n ∈ pks, .row t n ∈ w'.sess.held) F := by
  refine Body.look hΓ (Look.acquireAll hΓ hF _) fun _ w1 hs1 hlocks => ?_
  have hheld : ∀ n ∈ pks, .row t n ∈ w1.sess.held := fun n hn =>
    hlocks _ (List.mem_map.mpr ⟨n, hn, rfl⟩)
  refine Body.mono (Body.write hΓ hF (hf _ hs1.held hheld)) fun _ w2 hw2 hpend => ?_
  exact ⟨by rw [hpend, hs1.pend], fun n hn => hw2.held (hheld n hn)⟩

/-- `get_or_create`: a row that is found, before or after a lost race, or one that
    the savepoint inserted. -/
theorem body_getOrCreate (hΓ : Lawful Γ) (hF : Faults Γ F) {find : M (Option ρ)}
    {create : M ρ} {P : ρ × Bool → World Store Lock Obs → Prop} (hopen : w.sess.frames ≠ [])
    (hfind : ∀ w1, Still Γ w w1 → Look Γ find w1
      (fun r w2 => ∀ a, r = some a → P (a, false) w2) F)
    (hcreate : ∀ w1 w', Still Γ w w1 → Env Γ w1 w' → Body Γ create w'.begin
      (fun a w2 => ∀ w3, Env Γ w2 w3 → P (a, true) w3.release) F) :
    Body Γ (getOrCreate find create) w P F := by
  refine Body.look hΓ (hfind w (Still.refl hΓ w)) fun r w1 hs1 hr => ?_
  cases r with
  | some a => exact Body.ret hΓ (hr a rfl)
  | none =>
      have hopen1 : w1.sess.frames ≠ [] := by rw [hs1.frames]; exact hopen
      show Body Γ (Prog.tryCatch ((atomic create) >>= fun r => pure (r, true)) _) w1 P F
      refine wp_tryCatch (wp_bind (wp_savepoint (G := F) hΓ hopen1
        (fun w' he => hcreate w1 w' hs1 he) hF ?_ ?_))
      · intro e w3 he hs3
        show wp Γ _ _ w3
        cases e with
        | integrityError =>
            have again : Body Γ (find >>= fun r => match r with
                | some r => pure (r, false)
                | none => raise .integrityError) w3 P F := by
              refine Body.look hΓ (hfind w3 (hs1.trans hΓ hs3)) fun r w4 hs4 hr4 => ?_
              cases r with
              | some a => exact Body.ret hΓ (hr4 a rfl)
              | none => exact Body.raise hΓ he
            refine wp_mono ?_ again
            rintro r w5 ⟨hw, hr5⟩
            exact ⟨(hs3.within hΓ).trans hΓ hw, hr5⟩
        | _ => exact ⟨hs3.within hΓ, he⟩
      · intro w' a w2 w3 he hw hp he3 hwr
        exact ⟨hwr, hp w3 he3⟩

end Market
