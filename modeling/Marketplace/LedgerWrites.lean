import Mathlib.Data.List.Basic
import Marketplace.LockDiscipline
import Marketplace.StatementRules

/-! # The writes of the ledger respect the locks of others

    One lemma for each table that `transfers/services.py` writes, saying which
    locks make the write safe. -/

namespace Market

open TxnProgram TxnInterleaving TxnLogic TxnProtection

variable {p : Platform} {held : List Lock} {s : Store}

theorem not_open_unique {i : Index} (h : .unique i ∈ held) : ¬ Open held (.unique i) :=
  fun ho => ho _ h rfl

theorem not_open_row {t : Table} {n : Nat} (h : .row t n ∈ held) :
    ¬ Open held (.row t n) := fun ho => ho _ h ⟨rfl, rfl⟩

/-- An exclusive advisory lock excludes every other of its key. -/
theorem not_open_advisory {key : Int} {shared : Bool}
    (h : .advisory key false ∈ held) : ¬ Open held (.advisory key shared) :=
  fun ho => ho _ h ⟨rfl, fun hc => nomatch hc.1⟩

/-- An insert leaves alone every index entry but those it claims. -/
theorem index_of_append {ρ : Type} {i : Index} {rows : List ρ} {r : ρ} {q : ρ → Bool}
    (hopen : Open held (.unique i)) (hkey : q r = true → .unique i ∈ held)
    (h : rows.any q = false) : (rows ++ [r]).any q = false := by
  rw [List.any_append, h, Bool.false_or, List.any_cons, List.any_nil, Bool.or_false]
  exact Bool.eq_false_iff.mpr fun hq => not_open_unique (hkey hq) hopen

theorem respects_addAccount {a : MockAccount}
    (hpk : .unique (.pk .mockAccount a.pk) ∈ held)
    (huser : .unique (.mockAccountUser a.user) ∈ held) :
    Respects p held s (addAccount a s) := by
  refine Respects.of_table .mockAccount ?_ ?_ ?_ ?_ ?_
  · intro t ht
    cases t <;> first | rfl | exact absurd rfl ht
  · refine { Keeps.refl s with accounts := ?_ }
    show _ <+: (s.accounts ++ [a]).map MockAccount.identity
    rw [List.map_append]
    exact List.prefix_append _ _
  · intro t n ht _
    cases t with
    | mockAccount => exact fun r hr _ => List.mem_append_left _ hr
    | _ => exact absurd ht (by decide)
  · exact fun _ _ ht => absurd ht (by decide)
  · intro i hi ho h
    cases i with
    | pk t n =>
        cases hi
        exact index_of_append ho (fun hq => by rw [← eq_of_beq hq]; exact hpk) h
    | mockAccountUser u =>
        exact index_of_append ho (fun hq => by rw [← eq_of_beq hq]; exact huser) h
    | _ => exact nomatch hi

theorem respects_addLedgerAccount {l : LedgerAccount}
    (hpk : .unique (.pk .ledgerAccount l.pk) ∈ held)
    (hcode : .unique (.ledgerAccountCode l.code) ∈ held)
    (hmock : ∀ a, l.mockAccount = some a → .unique (.ledgerAccountMock a) ∈ held) :
    Respects p held s (addLedgerAccount l s) := by
  refine Respects.of_table .ledgerAccount ?_ ?_ ?_ ?_ ?_
  · intro t ht
    cases t <;> first | rfl | exact absurd rfl ht
  · exact { Keeps.refl s with ledgerAccounts := List.prefix_append _ _ }
  · intro t n ht
    cases t <;> exact absurd ht (by decide)
  · exact fun _ _ ht => absurd ht (by decide)
  · intro i hi ho h
    cases i with
    | pk t n =>
        cases hi
        exact index_of_append ho (fun hq => by rw [← eq_of_beq hq]; exact hpk) h
    | ledgerAccountCode c =>
        exact index_of_append ho (fun hq => by rw [← eq_of_beq hq]; exact hcode) h
    | ledgerAccountMock a =>
        exact index_of_append ho (fun hq => hmock a (eq_of_beq hq)) h
    | _ => exact nomatch hi

theorem respects_addJournal {j : LedgerJournal}
    (hpk : .unique (.pk .journal j.pk) ∈ held)
    (hseed : ∀ a, j.kind = .seedIssue → j.targetMockAccount = some a →
      .unique (.seedPerAccount a) ∈ held) :
    Respects p held s (addJournal j s) := by
  refine Respects.of_table .journal ?_ ?_ ?_ ?_ ?_
  · intro t ht
    cases t <;> first | rfl | exact absurd rfl ht
  · exact { Keeps.refl s with journals := List.prefix_append _ _ }
  · intro t n ht
    cases t <;> exact absurd ht (by decide)
  · exact fun _ _ ht => absurd ht (by decide)
  · intro i hi ho h
    cases i with
    | pk t n =>
        cases hi
        exact index_of_append ho (fun hq => by rw [← eq_of_beq hq]; exact hpk) h
    | seedPerAccount a =>
        refine index_of_append ho (fun hq => ?_) h
        rw [Bool.and_eq_true] at hq
        exact hseed a (eq_of_beq hq.1) (eq_of_beq hq.2)
    | _ => exact nomatch hi

theorem respects_addEntries (es : List LedgerEntry) :
    Respects p held s (addEntries es s) := by
  refine Respects.of_free (fun t => ?_)
    { Keeps.refl s with entries := List.prefix_append _ _ }
  cases t <;> rfl

theorem respects_addTransferAudit (a : TransferAudit) :
    Respects p held s (addTransferAudit a s) := by
  refine Respects.of_free (fun t => ?_) { Keeps.refl s with }
  cases t <;> rfl

theorem respects_addTransfer {t : Transfer}
    (hpk : .unique (.pk .transfer t.pk) ∈ held)
    (hjournal : .unique (.transferJournal t.journal) ∈ held) :
    Respects p held s (addTransfer t s) := by
  refine Respects.of_table .transfer ?_ ?_ ?_ ?_ ?_
  · intro t ht
    cases t <;> first | rfl | exact absurd rfl ht
  · exact { Keeps.refl s with transfers := List.prefix_append _ _ }
  · intro t n ht
    cases t <;> exact absurd ht (by decide)
  · exact fun _ _ ht => absurd ht (by decide)
  · intro i hi ho h
    cases i with
    | pk t n =>
        cases hi
        exact index_of_append ho (fun hq => by rw [← eq_of_beq hq]; exact hpk) h
    | transferJournal j =>
        exact index_of_append ho (fun hq => by rw [← eq_of_beq hq]; exact hjournal) h
    | _ => exact nomatch hi

theorem respects_addRequest {r : TransferRequest}
    (hpk : .unique (.pk .request r.pk) ∈ held)
    (hkey : .unique (.requestKey r.sender r.idempotencyKey) ∈ held)
    (htransfer : ∀ t, r.transfer = some t → .unique (.requestTransfer t) ∈ held)
    (hlock : .advisory (p.idempotencyDigest r.sender r.idempotencyKey) false ∈ held) :
    Respects p held s (addRequest r s) := by
  refine Respects.of_table .request ?_ ?_ ?_ ?_ ?_
  · intro t ht
    cases t <;> first | rfl | exact absurd rfl ht
  · exact { Keeps.refl s with requests := List.prefix_append _ _ }
  · intro t n ht
    cases t <;> exact absurd ht (by decide)
  · intro key shared _ ho
    refine ⟨fun _ _ => rfl, ?_⟩
    have hne : p.idempotencyDigest r.sender r.idempotencyKey ≠ key := by
      rintro rfl
      exact not_open_advisory hlock ho
    show (s.requests ++ [r]).filter _ = _
    rw [List.filter_append, List.filter_cons_of_neg (by simpa using hne),
      List.filter_nil, List.append_nil]
  · intro i hi ho h
    cases i with
    | pk t n =>
        cases hi
        exact index_of_append ho (fun hq => by rw [← eq_of_beq hq]; exact hpk) h
    | requestKey u k =>
        refine index_of_append ho (fun hq => ?_) h
        rw [Bool.and_eq_true] at hq
        rw [← eq_of_beq hq.1, ← eq_of_beq hq.2]
        exact hkey
    | requestTransfer t =>
        exact index_of_append ho (fun hq => htransfer t (eq_of_beq hq)) h
    | _ => exact nomatch hi

theorem respects_addNotification {n : Notification}
    (hpk : .unique (.pk .notification n.pk) ∈ held)
    (hkey : .unique (.notification n.recipient n.eventKey) ∈ held)
    (hlock : .row .user n.recipient ∈ held) :
    Respects p held s (addNotification n s) := by
  refine Respects.of_table .notification ?_ { Keeps.refl s with } ?_ ?_ ?_
  · intro t ht
    cases t <;> first | rfl | exact absurd rfl ht
  · intro t m ht ho
    cases t with
    | user =>
        refine ⟨RowStays.refl _ _ _, rfl, { OwnedSame.refl m s with notifications := ?_ }⟩
        intro r hr hm
        rcases List.mem_append.mp hr with hr | hr
        · exact hr
        · rw [List.mem_singleton] at hr
          rw [hr] at hm
          rw [← hm] at ho
          exact absurd ho (not_open_row hlock)
    | _ => exact absurd ht (by decide)
  · exact fun _ _ ht => absurd ht (by decide)
  · intro i hi ho h
    cases i with
    | pk t n =>
        cases hi
        exact index_of_append ho (fun hq => by rw [← eq_of_beq hq]; exact hpk) h
    | notification u k =>
        refine index_of_append ho (fun hq => ?_) h
        rw [Bool.and_eq_true] at hq
        rw [← eq_of_beq hq.1, ← eq_of_beq hq.2]
        exact hkey
    | _ => exact nomatch hi

/-- The first row of the safety state. -/
theorem respects_addSafety {t : TransferSafetyState}
    (hkey : .unique (.pk .safety 1) ∈ held) : Respects p held s (addSafety t s) := by
  have same : s.safety.isSome → (addSafety t s).safety = s.safety := by
    intro hs
    show s.safety.or (some t) = s.safety
    obtain ⟨u, hu⟩ := Option.isSome_iff_exists.mp hs
    rw [hu]
    rfl
  refine Respects.of_table .safety ?_ ?_ ?_ ?_ ?_
  · intro t ht
    cases t <;> first | rfl | exact absurd rfl ht
  · exact { Keeps.refl s with safety := fun hs => by rw [same hs]; exact hs }
  · intro t n ht _
    cases t with
    | safety => exact fun _ => same
    | _ => exact absurd ht (by decide)
  · exact fun key shared _ _ => ⟨fun _ => same, rfl⟩
  · intro i hi ho h
    cases i with
    | pk t n =>
        cases hi
        have hn : n ≠ 1 := by
          rintro rfl
          exact not_open_unique hkey ho
        show (n == 1 && _) = false
        rw [beq_eq_false_iff_ne.mpr hn, Bool.false_and]
    | _ => exact nomatch hi

/-- The safety state changes under the exclusive safety lock and the lock of its
    row. -/
theorem respects_setSafety {t : TransferSafetyState}
    (hlock : .advisory SAFETY_LOCK_KEY false ∈ held) (hrow : .row .safety 1 ∈ held) :
    Respects p held s (setSafety t s) := by
  have hsome : (setSafety t s).safety.isSome = s.safety.isSome := Option.isSome_map
  refine Respects.of_table .safety ?_ ?_ ?_ ?_ ?_
  · intro t ht
    cases t <;> first | rfl | exact absurd rfl ht
  · exact { Keeps.refl s with safety := fun hs => by rw [hsome]; exact hs }
  · intro t n ht ho
    cases t with
    | safety =>
        rintro rfl
        exact absurd ho (not_open_row hrow)
    | _ => exact absurd ht (by decide)
  · intro key shared _ ho
    refine ⟨?_, rfl⟩
    rintro rfl
    exact absurd ho (not_open_advisory hlock)
  · intro i hi ho h
    cases i with
    | pk t n =>
        cases hi
        show (n == 1 && (setSafety t s).safety.isSome) = false
        rw [hsome]
        exact h
    | _ => exact nomatch hi

theorem updateAccount_identity (n : Nat) (f : MockAccount → MockAccount)
    (hf : ∀ a, (f a).identity = a.identity) (s : Store) :
    (updateAccount n f s).accounts.map MockAccount.identity =
      s.accounts.map MockAccount.identity := by
  show (s.accounts.map fun a => if a.pk = n then f a else a).map _ = _
  rw [List.map_map]
  refine List.map_congr_left fun a _ => ?_
  show (if a.pk = n then f a else a).identity = a.identity
  by_cases h : a.pk = n
  · rw [if_pos h, hf]
  · rw [if_neg h]

/-- A change of a locked account row that keeps who owns it. -/
theorem respects_updateAccount {n : Nat} {f : MockAccount → MockAccount}
    (hf : ∀ a, (f a).identity = a.identity) (hrow : .row .mockAccount n ∈ held) :
    Respects p held s (updateAccount n f s) := by
  have hany : ∀ q : Nat × Nat → Bool,
      (updateAccount n f s).accounts.any (fun a => q a.identity) =
        s.accounts.any (fun a => q a.identity) := by
    intro q
    have h := congrArg (fun l => List.any l q) (updateAccount_identity n f hf s)
    simpa only [List.any_map, Function.comp_def] using h
  refine Respects.of_table .mockAccount ?_ ?_ ?_ ?_ ?_
  · intro t ht
    cases t <;> first | rfl | exact absurd rfl ht
  · exact { Keeps.refl s with
      accounts := by
        rw [updateAccount_identity n f hf s] }
  · intro t m ht ho
    cases t with
    | mockAccount =>
        intro a ha hm
        have hne : a.pk ≠ n := by
          rintro rfl
          rw [← hm] at ho
          exact not_open_row hrow ho
        refine List.mem_map.mpr ⟨a, ha, ?_⟩
        rw [if_neg hne]
    | _ => exact absurd ht (by decide)
  · exact fun _ _ ht => absurd ht (by decide)
  · intro i hi ho h
    cases i with
    | pk t m =>
        cases hi
        exact (hany fun x => x.1 == m).trans h
    | mockAccountUser u => exact (hany fun x => x.2 == u).trans h
    | _ => exact nomatch hi

end Market
