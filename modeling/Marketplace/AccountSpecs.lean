import Mathlib.Data.List.Basic
import Marketplace.TransferSpecs
import Marketplace.TxnFrames

/-! # What opening and closing an account commits

    The specifications of `ensure_account` and `close_account` in any interleaving.
    A new account comes with its ledger account, its seed journal and the two
    entries of the seed; only an open and empty account is closed, and only while
    the safety state is open. -/

namespace Market

open TxnProgram TxnInterleaving TxnLogic TxnProtection TxnBody TxnFrames

variable {p : Platform} {Γ : Ctx Store Lock Exn Obs} {w w' : World Store Lock Obs}

/-- A new account with all its rows. -/
structure Opening where
  account : MockAccount
  ledger : LedgerAccount
  reserve : LedgerAccount
  newReserve : Bool
  journal : Uuid
  newSafety : Bool

/-- `f` when the row is new. -/
def whenNew (new : Bool) (f : Store → Store) : Store → Store :=
  if new then f else id

/-- The store after the opening. -/
def Opening.apply (o : Opening) (s : Store) : Store :=
  whenNew o.newSafety (addSafety {}) <|
  addEntries [{ journal := o.journal, account := o.ledger.pk, amount := SEED_AMOUNT },
              { journal := o.journal, account := o.reserve.pk, amount := -SEED_AMOUNT }] <|
  addJournal { pk := o.journal, kind := .seedIssue,
               targetMockAccount := some o.account.pk } <|
  addLedgerAccount o.ledger <|
  addAccount o.account <|
  whenNew o.newReserve (addLedgerAccount o.reserve) s

/-- A key that is claimed and that nobody has. -/
structure Free (held : List Lock) (s : Store) (i : Index) : Prop where
  held : .unique i ∈ held
  free : i.present s = false

/-- A free key stays free, as long as it is held. -/
theorem Free.near {i : Index} (hA : Abides p Γ) (h : Free w.sess.held w.db i)
    (hn : Near Γ w w') : Free w'.sess.held w'.db i :=
  ⟨hn.held h.held, hA.same hn h.held h.free⟩

/-- What is settled is free. -/
theorem Settled.toFree {i : Index} (h : Settled i w) : Free w.sess.held w.db i :=
  ⟨h.held, h.free⟩

/-- The facts of an opening at its commit. -/
structure OpeningReady (user : Nat) (held : List Lock) (s : Store) (o : Opening) :
    Prop where
  accountUser : o.account.user = user
  accountBalance : o.account.balance = SEED_AMOUNT
  accountOpen : o.account.isOpen = true
  ledgerKind : o.ledger.kind = .user
  ledgerOf : o.ledger.mockAccount = some o.account.pk
  reserveCode : o.reserve.code = "SEED_RESERVE"
  reserveOld : o.newReserve = false → o.reserve ∈ s.ledgerAccounts
  reserveNew : o.newReserve = true →
    o.reserve.kind = .systemIssuance ∧ o.reserve.mockAccount = none ∧
    Free held s (.pk .ledgerAccount o.reserve.pk) ∧
    Free held s (.ledgerAccountCode "SEED_RESERVE")
  ledgerNew : o.ledger.pk ≠ o.reserve.pk
  accountFree : Free held s (.pk .mockAccount o.account.pk)
  userFree : Free held s (.mockAccountUser user)
  ledgerFree : Free held s (.pk .ledgerAccount o.ledger.pk)
  codeFree : Free held s (.ledgerAccountCode o.ledger.code)
  codeNew : o.ledger.code ≠ o.reserve.code
  journalFree : Free held s (.pk .journal o.journal)
  safetyFree : o.newSafety = true → Free held s (.pk .safety 1)

/-- An account that is to be opened stays so. -/
theorem OpeningReady.near {user : Nat} {o : Opening} (hA : Abides p Γ)
    (h : OpeningReady user w.sess.held w.db o) (hn : Near Γ w w') :
    OpeningReady user w'.sess.held w'.db o where
  accountUser := h.accountUser
  accountBalance := h.accountBalance
  accountOpen := h.accountOpen
  ledgerKind := h.ledgerKind
  ledgerOf := h.ledgerOf
  reserveCode := h.reserveCode
  reserveOld hr := (hA.keeps hn).ledgerAccounts.subset (h.reserveOld hr)
  reserveNew hr := by
    obtain ⟨h1, h2, h3, h4⟩ := h.reserveNew hr
    exact ⟨h1, h2, h3.near hA hn, h4.near hA hn⟩
  ledgerNew := h.ledgerNew
  accountFree := h.accountFree.near hA hn
  userFree := h.userFree.near hA hn
  ledgerFree := h.ledgerFree.near hA hn
  codeFree := h.codeFree.near hA hn
  codeNew := h.codeNew
  journalFree := h.journalFree.near hA hn
  safetyFree hs := (h.safetyFree hs).near hA hn

/-- How `ensure_account` ends: with the account that was there, locked, or with a
    new one. -/
inductive EnsureEnd (user : Nat) (held : List Lock) (s : Store) (a : MockAccount) :
    (Store → Store) → Prop where
  | found : a ∈ s.accounts → a.user = user → .row .mockAccount a.pk ∈ held →
      EnsureEnd user held s a id
  | opened (o : Opening) : OpeningReady user held s o → a = o.account →
      EnsureEnd user held s a o.apply

/-- The end of `ensure_account` stays one. -/
theorem EnsureEnd.near {user : Nat} {a : MockAccount} {f : Store → Store}
    (hA : Abides p Γ) (h : EnsureEnd user w.sess.held w.db a f) (hn : Near Γ w w') :
    EnsureEnd user w'.sess.held w'.db a f := by
  cases h with
  | found ha hu hl => exact .found (hA.same hn hl _ ha rfl) hu (hn.held hl)
  | opened o ho ha => exact .opened o (ho.near hA hn) ha

/-! ## `get_or_create` of the rows without a key of their own -/

/-- The safety state that was found, or the one that was created. -/
structure SafetyEnd (w : World Store Lock Obs) (r : TransferSafetyState × Bool)
    (w' : World Store Lock Obs) : Prop where
  found : r.2 = false → w'.sess.pend = w.sess.pend ∧ w'.view.safety = some r.1
  created : r.2 = true → r.1 = {} ∧ Settled (.pk .safety 1) w' ∧
    w'.sess.pend = fun s => addSafety {} (w.sess.pend s)

/-- A savepoint that ended keeps the settled keys of its body. -/
theorem Settled.release {i : Index} (hA : Abides p Γ) (h : Settled i w)
    (he : Env Γ w w') : Settled i w'.release := by
  have h' := h.near hA he.still.toNear
  exact ⟨h'.held, h'.free⟩

/-- The safety state is found or made. -/
theorem body_safetyGetOrCreate (hA : Abides p Γ)
    {find : M (Option TransferSafetyState)} (hopen : w.sess.frames ≠ [])
    (hview : ∀ s, (w.sess.pend s).safety.isSome = false → s.safety.isSome = false)
    (hfind : ∀ w1, Still Γ w w1 → Look Γ find w1
      (fun r w2 => ∀ t, r = some t → w2.view.safety = some t) anyError) :
    Body Γ (safetyGetOrCreate find) w (fun r w' => SafetyEnd w r w') anyError := by
  have hΓ := hA.lawful
  refine body_getOrCreate hΓ anyError_faults hopen ?_ ?_
  · intro w1 h1
    refine (hfind w1 h1).mono fun r w2 h2 hr t ht => ?_
    exact ⟨fun _ => ⟨(h1.trans hΓ h2).pend, hr t ht⟩, fun hc => nomatch hc⟩
  · intro w1 w2 h1 he
    refine Body.bind hΓ (body_insertRow hΓ anyError_faults trivial ?_)
      fun _ w3 _ hi => ?_
    · intro held _ hkeys s
      exact hA.leave _ _ _ (respects_addSafety (hkeys _ List.mem_cons_self))
    · have hpend : w2.begin.sess.pend = w.sess.pend := by
        rw [World.begin_pend, he.sess, h1.pend]
      refine Body.ret hΓ fun w4 he4 => ⟨fun hc => (nomatch hc), fun _ => ⟨rfl, ?_, ?_⟩⟩
      · refine Settled.release hA (hi.settled hA List.mem_cons_self fun s hs => ?_) he4
        rw [hpend] at hs
        exact hview s hs
      · show w4.sess.pend = _
        rw [he4.sess, hi.pend, hpend]

/-- The same, with its row locked. -/
theorem body_safetyForUpdate (hA : Abides p Γ) (hopen : w.sess.frames ≠ [])
    (hview : ∀ s, (w.sess.pend s).safety.isSome = false → s.safety.isSome = false) :
    Body Γ safetyForUpdate w (fun r w' => SafetyEnd w r w') anyError := by
  refine body_safetyGetOrCreate hA hopen hview fun w1 _ => ?_
  refine (look_firstForUpdate hA.lawful anyError_faults _ _ _ _).mono
    fun r w2 _ h t ht => ?_
  rw [ht] at h
  exact Option.mem_toList.mp h.1

/-- The ledger account of the reserve, found or created. -/
structure ReserveEnd (w : World Store Lock Obs) (r : LedgerAccount × Bool)
    (w' : World Store Lock Obs) : Prop where
  code : r.1.code = "SEED_RESERVE"
  found : r.2 = false → w'.sess.pend = w.sess.pend ∧ r.1 ∈ w'.db.ledgerAccounts
  created : r.2 = true → r.1.kind = .systemIssuance ∧ r.1.mockAccount = none ∧
    Settled (.pk .ledgerAccount r.1.pk) w' ∧
    Settled (.ledgerAccountCode "SEED_RESERVE") w' ∧
    w'.sess.pend = fun s => addLedgerAccount r.1 (w.sess.pend s)

/-- The reserve account is found or made. -/
theorem body_reserveGetOrCreate (hA : Abides p Γ) (hopen : w.sess.frames ≠ [])
    (hview : ∀ s, (w.sess.pend s).ledgerAccounts = s.ledgerAccounts) :
    Body Γ reserveGetOrCreate w (fun r w' => ReserveEnd w r w') anyError := by
  have hΓ := hA.lawful
  refine body_getOrCreate hΓ anyError_faults hopen ?_ ?_
  · intro w1 h1
    refine (look_fetch anyError_faults _).mono fun r w2 h2 hr l hl => ?_
    rw [hl, (h1.trans hΓ h2).view, hview] at hr
    have hcode := List.find?_some hr.symm
    exact {
      code := eq_of_beq hcode
      found := fun _ => ⟨(h1.trans hΓ h2).pend, List.mem_of_find?_eq_some hr.symm⟩
      created := fun hc => nomatch hc }
  · intro w1 w2 h1 he
    refine Body.look hΓ Look.fresh fun n w3 h3 _ => ?_
    refine Body.bind hΓ (body_insertRow hΓ anyError_faults trivial ?_)
      fun _ w4 _ hi => ?_
    · intro held _ hkeys s
      exact hA.leave _ _ _ (respects_addLedgerAccount (hkeys _ List.mem_cons_self)
        (hkeys _ (List.mem_cons_of_mem _ List.mem_cons_self)) fun a ha => nomatch ha)
    · have hpend : w3.sess.pend = w.sess.pend := by
        rw [h3.pend, World.begin_pend, he.sess, h1.pend]
      have hany : ∀ (q : LedgerAccount → Bool) s,
          (w3.sess.pend s).ledgerAccounts.any q = false →
          s.ledgerAccounts.any q = false := by
        intro q s hs
        rw [hpend, hview] at hs
        exact hs
      refine Body.ret hΓ fun w5 he5 => ⟨rfl, fun hc => (nomatch hc), fun _ => ?_⟩
      refine ⟨rfl, rfl, ?_, ?_, ?_⟩
      · exact Settled.release hA (hi.settled hA List.mem_cons_self (hany _)) he5
      · exact Settled.release hA (hi.settled hA
          (List.mem_cons_of_mem _ List.mem_cons_self) (hany _)) he5
      · show w5.sess.pend = _
        rw [he5.sess, hi.pend, hpend]

/-! ## `ensure_account` -/

/-- Nothing is written yet but, perhaps, the first row of the safety state. -/
def OnlySafety (w : World Store Lock Obs) : Prop :=
  ∃ new, w.sess.pend = whenNew new (addSafety {})

/-- To make the safety state leaves the accounts. -/
theorem OnlySafety.accounts (h : OnlySafety w) (s : Store) :
    (w.sess.pend s).accounts = s.accounts ∧
    (w.sess.pend s).ledgerAccounts = s.ledgerAccounts ∧
    (w.sess.pend s).journals = s.journals := by
  obtain ⟨new, hp⟩ := h
  rw [hp]
  cases new <;> exact ⟨rfl, rfl, rfl⟩

/-- What holds of no ledger account holds of no new one. -/
theorem whenNew_any {new : Bool} {l : LedgerAccount} {s : Store}
    {q : LedgerAccount → Bool}
    (h : (whenNew new (addLedgerAccount l) s).ledgerAccounts.any q = false) :
    s.ledgerAccounts.any q = false ∧ (new = true → q l = false) := by
  cases new with
  | false => exact ⟨h, fun hc => nomatch hc⟩
  | true =>
      have h' : (s.ledgerAccounts ++ [l]).any q = false := h
      rw [List.any_append, Bool.or_eq_false_iff, List.any_cons, List.any_nil,
        Bool.or_false] at h'
      exact ⟨h'.1, fun _ => h'.2⟩

/-- What `openAccount` finds: the reserve, written by it or not. -/
structure ReserveReady (w : World Store Lock Obs) (reserve : LedgerAccount)
    (newReserve newState : Bool) : Prop where
  pend : w.sess.pend = fun s => whenNew newReserve (addLedgerAccount reserve)
    (whenNew newState (addSafety {}) s)
  code : reserve.code = "SEED_RESERVE"
  old : newReserve = false → reserve ∈ w.db.ledgerAccounts
  new : newReserve = true → reserve.kind = .systemIssuance ∧
    reserve.mockAccount = none ∧ Settled (.pk .ledgerAccount reserve.pk) w ∧
    Settled (.ledgerAccountCode "SEED_RESERVE") w

/-- To make the reserve leaves the accounts of users. -/
theorem ReserveReady.view {reserve : LedgerAccount} {newReserve newState : Bool}
    (h : ReserveReady w reserve newReserve newState) (s : Store) :
    (w.sess.pend s).accounts = s.accounts ∧ (w.sess.pend s).journals = s.journals ∧
    (w.sess.pend s).ledgerAccounts =
      (whenNew newReserve (addLedgerAccount reserve) s).ledgerAccounts := by
  rw [h.pend]
  cases newReserve <;> cases newState <;> exact ⟨rfl, rfl, rfl⟩

/-- The reserve stays ready. -/
theorem ReserveReady.near {reserve : LedgerAccount} {newReserve newState : Bool}
    (hA : Abides p Γ) (h : ReserveReady w reserve newReserve newState)
    (hs : Still Γ w w') : ReserveReady w' reserve newReserve newState where
  pend := hs.pend.trans h.pend
  code := h.code
  old hr := (hA.keeps hs.toNear).ledgerAccounts.subset (h.old hr)
  new hr := by
    obtain ⟨h1, h2, h3, h4⟩ := h.new hr
    exact ⟨h1, h2, h3.near hA hs.toNear, h4.near hA hs.toNear⟩

/-- A condition that holds of no ledger account does not hold of the reserve. -/
theorem reserve_ne {reserve : LedgerAccount} {new : Bool} {s : Store}
    {q : LedgerAccount → Bool} (hold : new = false → reserve ∈ s.ledgerAccounts)
    (hq : (whenNew new (addLedgerAccount reserve) s).ledgerAccounts.any q = false) :
    s.ledgerAccounts.any q = false ∧ q reserve = false := by
  obtain ⟨hdb, hres⟩ := whenNew_any hq
  refine ⟨hdb, ?_⟩
  cases hn : new with
  | true => exact hres hn
  | false =>
      exact Bool.eq_false_iff.mpr fun hc =>
        absurd (List.any_eq_true.mpr ⟨reserve, hold hn, hc⟩) (Bool.eq_false_iff.mp hdb)

/-- **SPECIFICATION** of an opening: account, ledger account, one journal of two entries. -/
theorem body_openAccount (hA : Abides p Γ) {user : Nat} {reserve : LedgerAccount}
    {newReserve newState : Bool} (hopen : w.sess.frames ≠ [])
    (hready : ReserveReady w reserve newReserve newState) :
    Body Γ (openAccount user reserve) w
      (fun a w' => ∃ o : Opening, OpeningReady user w'.sess.held w'.db o ∧
        a = o.account ∧
        w'.sess.pend = fun s => o.apply (whenNew newState (addSafety {}) s))
      anyError := by
  have hΓ := hA.lawful
  -- the account, with a key of the sequence
  refine Body.look hΓ Look.fresh fun n w1 h1 _ => ?_
  have hready1 := hready.near hA h1
  refine Body.bind hΓ (body_insertRow hΓ anyError_faults trivial ?_)
    fun _ w2 h2 hi2 => ?_
  · intro held _ hkeys s
    exact hA.leave _ _ _ (respects_addAccount (hkeys _ List.mem_cons_self)
      (hkeys _ (List.mem_cons_of_mem _ List.mem_cons_self)))
  have hview1 : ∀ (q : MockAccount → Bool) s,
      (w1.sess.pend s).accounts.any q = false → s.accounts.any q = false := by
    intro q s hs
    rw [(hready1.view s).1] at hs
    exact hs
  have haccount : Settled (.pk .mockAccount n) w2 :=
    hi2.settled hA List.mem_cons_self (hview1 _)
  have huser : Settled (.mockAccountUser user) w2 :=
    hi2.settled hA (List.mem_cons_of_mem _ List.mem_cons_self) (hview1 _)
  -- its ledger account
  refine Body.look hΓ Look.fresh fun m w3 h3 _ => ?_
  refine Body.bind hΓ (body_insertRow hΓ anyError_faults trivial ?_)
    fun _ w4 h4 hi4 => ?_
  · intro held _ hkeys s
    refine hA.leave _ _ _ (respects_addLedgerAccount (hkeys _ List.mem_cons_self)
      (hkeys _ (List.mem_cons_of_mem _ List.mem_cons_self)) ?_)
    intro a ha
    cases ha
    exact hkeys _ (List.mem_cons_of_mem _ (List.mem_cons_of_mem _ List.mem_cons_self))
  -- The keys of the ledger account, seen by the check of its insert.
  obtain ⟨w5, h35, h54, hlocks5, hfree5⟩ := hi4.free
  have near15 : Near Γ w1 w5 :=
    (h2.trans hΓ ((h3.within hΓ).trans hΓ (h35.within hΓ))).toNear
  have hold5 : newReserve = false → reserve ∈ w5.db.ledgerAccounts := fun hr =>
    (hA.keeps near15).ledgerAccounts.subset (hready1.old hr)
  have hview5 : w5.view.ledgerAccounts =
      (whenNew newReserve (addLedgerAccount reserve) w5.db).ledgerAccounts := by
    rw [(h3.trans hΓ h35).view, hi2.pend]
    exact (hready1.view w5.db).2.2
  have hne : ∀ q : LedgerAccount → Bool, w5.view.ledgerAccounts.any q = false →
      w5.db.ledgerAccounts.any q = false ∧ q reserve = false := by
    intro q hq
    rw [hview5] at hq
    exact reserve_ne hold5 hq
  have hpk5 := hne _ (hfree5 _ List.mem_cons_self)
  have hcode5 := hne _ (hfree5 _ (List.mem_cons_of_mem _ List.mem_cons_self))
  have hledger : Settled (.pk .ledgerAccount m) w4 :=
    Settled.near hA ⟨hlocks5 _ List.mem_cons_self, hpk5.1⟩ h54.toNear
  have hcode : Settled (.ledgerAccountCode (userCode user)) w4 :=
    Settled.near hA ⟨hlocks5 _ (List.mem_cons_of_mem _ List.mem_cons_self), hcode5.1⟩
      h54.toNear
  -- the journal of the seed, under a random key
  refine Body.look hΓ (look_uuid4 hΓ) fun j w6 h6 _ => ?_
  refine Body.bind hΓ (body_insertRow hΓ anyError_faults trivial ?_)
    fun _ w7 h7 hi7 => ?_
  · intro held _ hkeys s
    refine hA.leave _ _ _ (respects_addJournal (hkeys _ List.mem_cons_self) ?_)
    intro a _ ha
    cases ha
    exact hkeys _ (List.mem_cons_of_mem _ List.mem_cons_self)
  have hpend6 : w6.sess.pend = fun s =>
      addLedgerAccount { pk := m, kind := .user, mockAccount := some n,
                         code := userCode user }
        (addAccount { pk := n, user := user, balance := SEED_AMOUNT }
          (whenNew newReserve (addLedgerAccount reserve)
            (whenNew newState (addSafety {}) s))) := by
    rw [h6.pend, hi4.pend, h3.pend, hi2.pend, hready1.pend]
  have hjournal : Settled (.pk .journal j) w7 := by
    refine hi7.settled hA List.mem_cons_self fun s hs => ?_
    have hj : (w6.sess.pend s).journals = s.journals := by
      rw [hpend6]
      have hv := (hready1.view s).2.1
      rw [hready1.pend] at hv
      simpa only [addLedgerAccount, addAccount] using hv
    have hs' : (w6.sess.pend s).journals.any (·.pk == j) = false := hs
    rw [hj] at hs'
    exact hs'
  -- its two entries
  refine Body.bind hΓ (body_insertRow hΓ anyError_faults trivial fun held _ _ s =>
    hA.leave _ _ _ (respects_addEntries _)) fun _ w8 h8 hi8 => ?_
  have near28 : Within Γ w2 w8 := (h3.within hΓ).trans hΓ (h4.trans hΓ
    ((h6.within hΓ).trans hΓ (h7.trans hΓ h8)))
  have hopen8 : w8.sess.frames ≠ [] := by
    rw [near28.frames, h2.frames, h1.frames]
    exact hopen
  have hpend8 : w8.sess.pend = fun s => addEntries
      [{ journal := j, account := m, amount := SEED_AMOUNT },
       { journal := j, account := reserve.pk, amount := -SEED_AMOUNT }]
      (addJournal { pk := j, kind := .seedIssue, targetMockAccount := some n }
        (addLedgerAccount { pk := m, kind := .user, mockAccount := some n,
                            code := userCode user }
          (addAccount { pk := n, user := user, balance := SEED_AMOUNT }
            (whenNew newReserve (addLedgerAccount reserve)
              (whenNew newState (addSafety {}) s))))) := by
    rw [hi8.pend, hi7.pend, hpend6]
  have hsafe8 : ∀ s, (w8.sess.pend s).safety.isSome = false → s.safety.isSome = false := by
    intro s hs
    rw [hpend8] at hs
    have hs' : (whenNew newReserve (addLedgerAccount reserve)
        (whenNew newState (addSafety {}) s)).safety.isSome = false := by
      simpa only [addEntries, addJournal, addLedgerAccount, addAccount] using hs
    have hsame : (whenNew newReserve (addLedgerAccount reserve)
        (whenNew newState (addSafety {}) s)).safety =
          (whenNew newState (addSafety {}) s).safety := by
      cases newReserve <;> rfl
    rw [hsame] at hs'
    cases newState with
    | false => exact hs'
    | true =>
        cases hsafe : s.safety with
        | none => rfl
        | some t =>
            have h' : (s.safety.or (some {})).isSome = false := hs'
            rw [hsafe] at h'
            cases h'
  -- the safety state, which may be there already
  refine Body.bind hΓ (body_safetyGetOrCreate hA hopen8 hsafe8 fun w9 _ =>
    (look_fetch anyError_faults _).mono fun r w10 _ hr t ht => hr.symm.trans ht)
    fun pair w9 h9 hsafety => Body.ret hΓ ?_
  obtain ⟨state, created⟩ := pair
  have near89 := h9.toNear
  have near79 : Near Γ w7 w9 := (h8.trans hΓ h9).toNear
  have near49 : Near Γ w4 w9 :=
    ((h6.within hΓ).trans hΓ (h7.trans hΓ (h8.trans hΓ h9))).toNear
  have near29 : Near Γ w2 w9 := (near28.trans hΓ h9).toNear
  have near19 : Near Γ w1 w9 := h2.toNear.trans hΓ near29
  let o : Opening :=
    { account := { pk := n, user := user, balance := SEED_AMOUNT }
      ledger := { pk := m, kind := .user, mockAccount := some n, code := userCode user }
      reserve := reserve
      newReserve := newReserve
      journal := j
      newSafety := created }
  -- the reserve has a key and a code of its own
  have hm : m ≠ reserve.pk := fun e => by
    have h := hpk5.2
    rw [← e] at h
    exact absurd (beq_self_eq_true m) (Bool.eq_false_iff.mp h)
  have hcodes : userCode user ≠ reserve.code := fun e => by
    have h := hcode5.2
    rw [← e] at h
    exact absurd (beq_self_eq_true _) (Bool.eq_false_iff.mp h)
  have hopening : OpeningReady user w9.sess.held w9.db o := {
    accountUser := rfl
    accountBalance := rfl
    accountOpen := rfl
    ledgerKind := rfl
    ledgerOf := rfl
    reserveCode := hready1.code
    reserveOld := fun hr => (hA.keeps near19).ledgerAccounts.subset (hready1.old hr)
    reserveNew := fun hr => by
      obtain ⟨g1, g2, g3, g4⟩ := hready1.new hr
      exact ⟨g1, g2, (g3.near hA near19).toFree, (g4.near hA near19).toFree⟩
    ledgerNew := hm
    accountFree := (haccount.near hA near29).toFree
    userFree := (huser.near hA near29).toFree
    ledgerFree := (hledger.near hA near49).toFree
    codeFree := (hcode.near hA near49).toFree
    codeNew := hcodes
    journalFree := (hjournal.near hA near79).toFree
    safetyFree := fun hc => (hsafety.created hc).2.1.toFree }
  refine ⟨o, hopening, rfl, ?_⟩
  cases created with
  | false =>
      rw [(hsafety.found rfl).1, hpend8]
      rfl
  | true =>
      rw [(hsafety.created rfl).2.2, hpend8]
      rfl

/-- **SPECIFICATION** of `ensure_account`, up to its commit. -/
theorem body_ensureAccount (hA : Abides p Γ) (user : Nat) {newState : Bool}
    (hpend : w.sess.pend = whenNew newState (addSafety {})) (hopen : w.sess.frames ≠ []) :
    Body Γ (ensureAccountBody user) w
      (fun a w' => ∃ f, EnsureEnd user w'.sess.held w'.db a f ∧
        w'.sess.pend = fun s => f (whenNew newState (addSafety {}) s)) anyError := by
  have hΓ := hA.lawful
  refine Body.look hΓ (look_firstForUpdate hΓ anyError_faults _ _ _ _)
    fun existing w1 h1 hfound => ?_
  have hpend1 : w1.sess.pend = whenNew newState (addSafety {}) := h1.pend.trans hpend
  cases existing with
  | some a =>
      refine Body.ret hΓ ⟨id, .found ?_ (eq_of_beq hfound.2.1) hfound.2.2, hpend1⟩
      have ha : a ∈ w1.view.accounts := hfound.1
      have hsame : w1.view.accounts = w1.db.accounts :=
        (OnlySafety.accounts ⟨newState, hpend1⟩ w1.db).1
      rw [hsame] at ha
      exact ha
  | none =>
      have hopen1 : w1.sess.frames ≠ [] := by
        rw [h1.frames]
        exact hopen
      refine Body.bind hΓ (body_reserveGetOrCreate hA hopen1 fun s =>
        (OnlySafety.accounts ⟨newState, hpend1⟩ s).2.1) fun ⟨reserve, new⟩ w2 h2 hr => ?_
      have hready : ReserveReady w2 reserve new newState := by
        refine ⟨?_, hr.code, fun hn => (hr.found hn).2, fun hn => ?_⟩
        · cases new with
          | false =>
              rw [(hr.found rfl).1, hpend1]
              rfl
          | true =>
              rw [(hr.created rfl).2.2.2.2, hpend1]
              rfl
        · obtain ⟨g1, g2, g3, g4, -⟩ := hr.created hn
          exact ⟨g1, g2, g3, g4⟩
      refine (body_openAccount hA ?_ hready).mono ?_
      · rw [h2.frames]
        exact hopen1
      · rintro a w3 _ ⟨o, ho, rfl, hp⟩
        exact ⟨o.apply, .opened o ho rfl, hp⟩

/-- **SPECIFICATION** of `ensure_account`, inside of a transfer. -/
theorem body_ensureAccountNested (hA : Abides p Γ) (user : Nat) {newState : Bool}
    (hpend : w.sess.pend = whenNew newState (addSafety {})) (hopen : w.sess.frames ≠ []) :
    Body Γ (ensureAccount user) w
      (fun a w' => ∃ f, EnsureEnd user w'.sess.held w'.db a f ∧
        w'.sess.pend = fun s => f (whenNew newState (addSafety {}) s)) anyError := by
  have hΓ := hA.lawful
  refine (Body.atomic (P := fun _ a w1 => ∃ f, EnsureEnd user w1.sess.held w1.db a f ∧
      w1.sess.pend = fun s => f (whenNew newState (addSafety {}) s))
    hΓ anyError_faults hopen fun w' he => ?_).mono ?_
  · refine body_ensureAccount hA user ?_ ?_
    · rw [World.begin_pend, he.sess]
      exact hpend
    · rw [World.begin_frames]
      exact List.cons_ne_nil _ _
  · rintro a w3 _ ⟨w', w1, w2, -, -, ⟨f, hf, hp⟩, he2, rfl⟩
    have hpend2 : w2.sess.pend = w1.sess.pend := by rw [he2.sess]
    have hf2 : EnsureEnd user w2.sess.held w2.db a f := hf.near hA he2.still.toNear
    exact ⟨f, hf2, hpend2.trans hp⟩

/-! ## `close_account` -/

/-- The safety state is open, or there is none and nobody else makes it. -/
def NotBlocked (held : List Lock) (s : Store) : Prop :=
  (∃ t, s.safety = some t ∧ t.state = .opened) ∨ Free held s (.pk .safety 1)

/-- Under the shared lock the state is not blocked. -/
theorem NotBlocked.near (hA : Abides p Γ) (h : NotBlocked w.sess.held w.db)
    (hlock : .advisory SAFETY_LOCK_KEY true ∈ w.sess.held) (hn : Near Γ w w') :
    NotBlocked w'.sess.held w'.db := by
  rcases h with ⟨t, ht, ho⟩ | h
  · have hs := (hA.same hn hlock).1 rfl (by rw [ht]; rfl)
    exact Or.inl ⟨t, hs.trans ht, ho⟩
  · exact Or.inr (h.near hA hn)

/-- A state that is there is open. -/
theorem NotBlocked.state {held : List Lock} {s : Store} (h : NotBlocked held s)
    (t : TransferSafetyState) (ht : s.safety = some t) : t.state = .opened := by
  rcases h with ⟨u, hu, ho⟩ | h
  · rw [ht] at hu
    cases hu
    exact ho
  · have hfree : (1 == 1 && s.safety.isSome) = false := h.free
    rw [ht] at hfree
    exact nomatch hfree

/-- The facts of a closing at its commit. -/
structure ClosingReady (held : List Lock) (s : Store) (a : MockAccount) : Prop where
  row : a ∈ s.accounts
  lock : .row .mockAccount a.pk ∈ held
  isOpen : a.isOpen = true
  empty : a.balance = 0
  safetyLock : .advisory SAFETY_LOCK_KEY true ∈ held
  notBlocked : NotBlocked held s

/-- An account that is to be closed stays so. -/
theorem ClosingReady.near {a : MockAccount} (hA : Abides p Γ)
    (h : ClosingReady w.sess.held w.db a) (hn : Near Γ w w') :
    ClosingReady w'.sess.held w'.db a where
  row := hA.same hn h.lock _ h.row rfl
  lock := hn.held h.lock
  isOpen := h.isOpen
  empty := h.empty
  safetyLock := hn.held h.safetyLock
  notBlocked := h.notBlocked.near hA h.safetyLock hn

/-- How `close_account` ends: the account was closed before, or is closed now. -/
inductive CloseEnd (user : Nat) (held : List Lock) (s : Store) :
    Bool → (Store → Store) → Prop where
  | already (newState : Bool) : CloseEnd user held s false (whenNew newState (addSafety {}))
  | closed (newState : Bool) (a : MockAccount) (now : Time) : ClosingReady held s a →
      CloseEnd user held s true (fun s =>
        addTransferAudit { actor := user, eventType := "ACCOUNT_CLOSED" }
          (setClosed a.pk now (whenNew newState (addSafety {}) s)))

/-- The end of `close_account` stays one. -/
theorem CloseEnd.near {user : Nat} {r : Bool} {f : Store → Store} (hA : Abides p Γ)
    (h : CloseEnd user w.sess.held w.db r f) (hn : Near Γ w w') :
    CloseEnd user w'.sess.held w'.db r f := by
  cases h with
  | already newState => exact .already newState
  | closed newState a now ha => exact .closed newState a now (ha.near hA hn)

/-- The same with the owner: the account that is closed is the one of the user. -/
inductive CloseOwn (user : Nat) (held : List Lock) (s : Store) :
    Bool → (Store → Store) → Prop where
  | already (newState : Bool) : CloseOwn user held s false (whenNew newState (addSafety {}))
  | closed (newState : Bool) (a : MockAccount) (now : Time) : ClosingReady held s a →
      (a.pk, user) ∈ s.accounts.map MockAccount.identity →
      CloseOwn user held s true (fun s =>
        addTransferAudit { actor := user, eventType := "ACCOUNT_CLOSED" }
          (setClosed a.pk now (whenNew newState (addSafety {}) s)))

/-- What it does on its own is its end. -/
theorem CloseOwn.closeEnd {user : Nat} {r : Bool} {held : List Lock} {s : Store}
    {f : Store → Store} (h : CloseOwn user held s r f) : CloseEnd user held s r f := by
  cases h with
  | already newState => exact .already newState
  | closed newState a now ha _ => exact .closed newState a now ha

/-- That stays so, too. -/
theorem CloseOwn.near {user : Nat} {r : Bool} {f : Store → Store} (hA : Abides p Γ)
    (h : CloseOwn user w.sess.held w.db r f) (hn : Near Γ w w') :
    CloseOwn user w'.sess.held w'.db r f := by
  cases h with
  | already newState => exact .already newState
  | closed newState a now ha hu =>
      exact .closed newState a now (ha.near hA hn) ((hA.keeps hn).accounts.subset hu)

/-- A state that was found open is not blocked under the lock. -/
theorem SafetyEnd.notBlocked {r : TransferSafetyState × Bool}
    (h : SafetyEnd w r w') (hpend : w.sess.pend = id) (hstate : r.1.state = .opened) :
    NotBlocked w'.sess.held w'.db ∧ w'.sess.pend = whenNew r.2 (addSafety {}) := by
  cases hr : r.2 with
  | false =>
      obtain ⟨hp, hv⟩ := h.found hr
      rw [hpend] at hp
      have hv' : w'.sess.pend w'.db = w'.db := by rw [hp]; rfl
      have hdb : w'.db.safety = some r.1 := by
        rw [← hv]
        exact congrArg Store.safety hv'.symm
      exact ⟨Or.inl ⟨r.1, hdb, hstate⟩, hp⟩
  | true =>
      obtain ⟨-, hs, hp⟩ := h.created hr
      rw [hpend] at hp
      exact ⟨Or.inr hs.toFree, hp⟩

/-- **SPECIFICATION** of `close_account`, up to its commit. -/
theorem body_closeAccount (hA : Abides p Γ) (user : Nat) (hpend : w.sess.pend = id)
    (hopen : w.sess.frames ≠ []) :
    Body Γ (closeAccountBody user) w
      (fun r w' => CloseOwn user w'.sess.held w'.db r w'.sess.pend) anyError := by
  have hΓ := hA.lawful
  refine Body.look hΓ (Look.acquire anyError_faults _) fun _ w1 h1 hlock => ?_
  have hopen1 : w1.sess.frames ≠ [] := by
    rw [h1.frames]
    exact hopen
  have hpend1 : w1.sess.pend = id := h1.pend.trans hpend
  refine Body.bind hΓ (body_safetyForUpdate hA hopen1 fun s hs => by
    rw [hpend1] at hs; exact hs) fun ⟨safety, newState⟩ w2 h2 hsafety => ?_
  dsimp only
  refine Body.look hΓ (look_raiseIf hΓ fun _ => trivial) fun _ w3 h3 hopened => ?_
  have hstate : safety.state = .opened := by
    cases hst : safety.state with
    | opened => rfl
    | blocked =>
        rw [hst] at hopened
        exact nomatch hopened
  obtain ⟨hnot, hpend2⟩ := hsafety.notBlocked hpend1 hstate
  have hpend3 : w3.sess.pend = whenNew newState (addSafety {}) := h3.pend.trans hpend2
  have hopen3 : w3.sess.frames ≠ [] := by
    rw [h3.frames, h2.frames]
    exact hopen1
  -- the account is opened first, if there is none
  refine Body.bind hΓ (body_ensureAccountNested hA user hpend3 hopen3)
    fun account w4 h4 ⟨f, hensure, hp4⟩ => ?_
  refine Body.look hΓ (look_getForUpdate hΓ anyError_faults _ _ _ _ trivial)
    fun row w5 h5 ⟨hrow, hpk, hrowLock⟩ => ?_
  rw [beq_iff_eq] at hpk
  have hp5 : w5.sess.pend = fun s => f (whenNew newState (addSafety {}) s) :=
    h5.pend.trans hp4
  have hensure5 := hensure.near hA h5.toNear
  have near25 : Near Γ w2 w5 :=
    ((h3.within hΓ).trans hΓ (h4.trans hΓ (h5.within hΓ))).toNear
  have hlock5 : .advisory SAFETY_LOCK_KEY true ∈ w5.sess.held :=
    near25.held (h2.held hlock)
  have hnot5 : NotBlocked w5.sess.held w5.db := hnot.near hA (h2.held hlock) near25
  -- A new account is open and not empty, so it is never the one that is closed.
  have fresh : ∀ o : Opening, OpeningReady user w5.sess.held w5.db o →
      account = o.account → f = o.apply → row = o.account := by
    intro o ho ha hf
    have hmem : row ∈ (o.apply (whenNew newState (addSafety {}) w5.db)).accounts := by
      have h : row ∈ (w5.sess.pend w5.db).accounts := hrow
      rw [hp5, hf] at h
      exact h
    have haccounts : (o.apply (whenNew newState (addSafety {}) w5.db)).accounts =
        w5.db.accounts ++ [o.account] := by
      cases hs : newState <;> cases hn : o.newReserve <;> cases hc : o.newSafety <;>
        simp only [Opening.apply, whenNew, hn, hc, addSafety, addEntries, addJournal,
          addLedgerAccount, addAccount, if_true, if_false, Bool.false_eq_true, id]
    rw [haccounts, List.mem_append, List.mem_singleton] at hmem
    refine hmem.resolve_left fun hold => ?_
    have hfree := ho.accountFree.free
    refine absurd (List.any_eq_true.mpr ⟨row, hold, ?_⟩) (Bool.eq_false_iff.mp hfree)
    rw [hpk, ha]
    exact beq_self_eq_true _
  cases hisOpen : row.isOpen with
  | false =>
      rw [if_pos (by rfl)]
      refine Body.ret hΓ ?_
      -- closed already, and so not one that was opened here
      cases hensure5 with
      | found _ _ _ =>
          rw [hp5]
          exact .already newState
      | opened o ho ha =>
          have hr := fresh o ho ha rfl
          rw [hr, ho.accountOpen] at hisOpen
          cases hisOpen
  | true =>
      rw [if_neg (by decide)]
      refine Body.look hΓ (look_raiseIf hΓ fun _ => trivial) fun _ w6 h6 hempty => ?_
      have hempty : row.balance = 0 := by simpa using hempty
      refine Body.look hΓ Look.fresh fun now w7 h7 _ => ?_
      refine Body.bind hΓ (body_updateRows hΓ anyError_faults ?_) fun _ w8 h8 hp8 => ?_
      · intro held _ hlocks s
        exact hA.leave _ _ _ (respects_updateAccount (fun _ => rfl)
          (hlocks _ List.mem_cons_self))
      refine Body.bind hΓ (body_insertRow hΓ anyError_faults trivial fun held _ _ s =>
        hA.leave _ _ _ (respects_addTransferAudit _)) fun _ w9 h9 hi9 => ?_
      refine Body.ret hΓ ?_
      have near59 : Near Γ w5 w9 := ((h6.within hΓ).trans hΓ ((h7.within hΓ).trans hΓ
        (h8.trans hΓ h9))).toNear
      have hp7 : w7.sess.pend = fun s => f (whenNew newState (addSafety {}) s) := by
        rw [h7.pend, h6.pend, hp5]
      cases hensure5 with
      | found ha hu hl =>
          have hp9 : w9.sess.pend = fun s =>
              addTransferAudit { actor := user, eventType := "ACCOUNT_CLOSED" }
                (setClosed row.pk now (whenNew newState (addSafety {}) s)) := by
            rw [hi9.pend, hp8.1, hp7]
            rfl
          rw [hp9]
          have hown : (row.pk, user) ∈ w5.db.accounts.map MockAccount.identity := by
            rw [hpk, ← hu]
            exact List.mem_map_of_mem ha
          refine .closed newState row now ?_ ((hA.keeps near59).accounts.subset hown)
          have hdb : row ∈ w5.db.accounts := by
            have h : row ∈ (w5.sess.pend w5.db).accounts := hrow
            have hsame := (OnlySafety.accounts (w := w5) ⟨newState, hp5⟩ w5.db).1
            rw [hsame] at h
            exact h
          exact {
            row := hA.same near59 hrowLock _ hdb rfl
            lock := near59.held hrowLock
            isOpen := hisOpen
            empty := hempty
            safetyLock := near59.held hlock5
            notBlocked := hnot5.near hA hlock5 near59 }
      | opened o ho ha =>
          have hr := fresh o ho ha rfl
          rw [hr, ho.accountBalance] at hempty
          exact absurd hempty (by decide)

/-! ## Whole transactions -/

/-- `ensure_account`, where what it ends with may be committed. -/
theorem top_ensureAccount (hA : Abides p Γ) {user : Nat}
    (hguar : ∀ a held s f, Γ.leave held s (f s) → EnsureEnd user held s a f →
      Γ.guar held s (f s)) : Top Γ (ensureAccount user) := by
  refine Top.atomicEnds hA.lawful (P := fun a held s f => EnsureEnd user held s a f) ?_
    (fun a f w w' h hn => h.near hA hn) hguar
  intro w hpend hopen
  have hid : w.sess.pend = whenNew false (addSafety {}) := hpend
  refine (body_ensureAccount hA user hid hopen).mono fun a w' _ ⟨f, hf, hp⟩ => ?_
  have hfun : w'.sess.pend = f := hp
  rw [hfun]
  exact hf

/-- `close_account`, where what it ends with may be committed. -/
theorem top_closeAccount_own (hA : Abides p Γ) {user : Nat}
    (hguar : ∀ r held s f, Γ.leave held s (f s) → CloseOwn user held s r f →
      Γ.guar held s (f s)) : Top Γ (closeAccount user) :=
  Top.atomicEnds hA.lawful (P := fun r held s f => CloseOwn user held s r f)
    (fun _ hpend hopen => body_closeAccount hA user hpend hopen)
    (fun _ _ _ _ h hn => h.near hA hn) hguar

/-- **SPECIFICATION** of `close_account`. -/
theorem top_closeAccount (hA : Abides p Γ) {user : Nat}
    (hguar : ∀ r held s f, Γ.leave held s (f s) → CloseEnd user held s r f →
      Γ.guar held s (f s)) : Top Γ (closeAccount user) :=
  top_closeAccount_own hA fun r held s f hleave h => hguar r held s f hleave h.closeEnd

end Market
