import Marketplace.LedgerRuns

/-! # Nothing moves after the block

    The safety lock at work: money moves under the shared lock and an open state, the
    transition to the blocked state is made under the exclusive lock.  So nothing is
    committed to the ledger while the state is blocked, and whoever holds the
    exclusive lock reads one store, however many queries it makes. -/

namespace Market

open TxnProgram TxnInterleaving TxnLogic TxnProtection TxnSoundness TxnBody TxnFrames
  TxnSchedule

variable {p : Platform} {s : Store}

/-! ## What the exclusive lock freezes -/

/-- Accounts, ledger and transfers are the same. -/
structure Frozen (s s' : Store) : Prop extends SameLedger s s' where
  transfers : s'.transfers = s.transfers

theorem Frozen.refl (s : Store) : Frozen s s := ⟨⟨rfl, rfl, rfl, rfl⟩, rfl⟩

/-- Frozen is frozen from step to step. -/
theorem Frozen.trans {s s' s'' : Store} (h : Frozen s s') (h' : Frozen s' s'') :
    Frozen s s'' where
  accounts := h'.accounts.trans h.accounts
  ledgerAccounts := h'.ledgerAccounts.trans h.ledgerAccounts
  journals := h'.journals.trans h.journals
  entries := h'.entries.trans h.entries
  transfers := h'.transfers.trans h.transfers

/-- Who leaves the money where it is leaves the ledger alone. -/
theorem Frozen.quiet {s s' : Store} (h : Frozen s s') : LedgerQuiet s s' :=
  ⟨congrArg _ h.accounts, h.ledgerAccounts, h.journals, h.entries⟩

/-- The safety state is not blocked. -/
def Unblocked (s : Store) : Prop := ∀ t, s.safety = some t → t.state = .opened

/-- What a commit does, seen from the safety state: it leaves the ledger alone, or it
    is made under the shared lock and not against a block. -/
def SafetyStep (held : List Lock) (s s' : Store) : Prop :=
  Frozen s s' ∨ (.advisory SAFETY_LOCK_KEY true ∈ held ∧ Unblocked s)

/-- The context of a session that follows the rules of the safety lock. -/
def safetyCtx (p : Platform) : Ctx Store Lock Exn Obs where
  deferred := validateBalancedJournal
  fault := (postgres fun _ _ => False).fault
  rely held s s' := (marketDiscipline p).rely held s s' ∧
    (.advisory SAFETY_LOCK_KEY false ∈ held → Frozen s s')
  leave := Respects p
  guar held s s' := Respects p held s s' ∧ MoneyStep p held s s' ∧ SafetyStep held s s'

theorem safetyCtx_lawful (p : Platform) : Lawful (safetyCtx p) := by
  have hmarket : Lawful (ledgerCtx p) := (ledgerCtx_abides p).lawful
  exact {
    refl := fun held s => ⟨hmarket.refl held s, fun _ => Frozen.refl s⟩
    trans := fun held s s' s'' h h' =>
      ⟨hmarket.trans held s s' s'' h.1 h'.1, fun hl => (h.2 hl).trans (h'.2 hl)⟩
    anti := fun held held' s s' hsub h =>
      ⟨hmarket.anti held held' s s' hsub h.1, fun hl => h.2 (hsub hl)⟩
    leave_refl := fun held s => (hmarket.leave_refl held s).1
    leave_trans := fun held s s' s'' h h' =>
      (hmarket.leave_trans held s s' s'' ⟨h, trivial⟩ ⟨h', trivial⟩).1
    leave_mono := fun held held' s s' hsub h =>
      (hmarket.leave_mono held held' s s' hsub ⟨h, trivial⟩).1 }

theorem safetyCtx_abides (p : Platform) : Abides p (safetyCtx p) where
  lawful := safetyCtx_lawful p
  rely _ _ _ h := h.1
  leave _ _ _ h := h
  deferred := rfl

/-- **READERS AND WRITERS**: what is not frozen is committed under a lock that the
    exclusive one keeps away. -/
theorem safetyCtx_fits {ι : Type} (p : Platform) :
    Fits (postgres fun _ _ => False) (fun _ : ι => safetyCtx p) where
  lawful _ := safetyCtx_lawful p
  symm := Lock.conflicts_symm
  deferred _ := rfl
  fault _ _ h := h
  env _ _ _ _ h := False.elim h
  guar := by
    intro i j held held' s s' _ hapart hg
    refine ⟨⟨hg.1.1, fun l hl => hg.1.2 l fun x hx => hapart x hx l hl⟩, fun hlock => ?_⟩
    rcases hg.2.2 with hfrozen | ⟨hshared, -⟩
    · exact hfrozen
    · exact absurd ⟨rfl, fun hc => nomatch hc.2⟩ (hapart _ hshared _ hlock)

/-! ## Reading under the exclusive lock -/

/-- The session holds the exclusive lock, and has written nothing to the ledger. -/
structure Exclusive (w : World Store Lock Obs) : Prop where
  lock : .advisory SAFETY_LOCK_KEY false ∈ w.sess.held
  pend : ∀ s, Frozen s (w.sess.pend s)

/-- Under the exclusive lock the money is frozen. -/
theorem Exclusive.frozen {w w' : World Store Lock Obs} (h : Exclusive w)
    (hn : Near (safetyCtx p) w w') : Frozen w.db w'.db := hn.db.2 h.lock

/-- The exclusive lock is held on to. -/
theorem Exclusive.near {w w' : World Store Lock Obs} (h : Exclusive w)
    (hs : Still (safetyCtx p) w w') : Exclusive w' where
  lock := hs.held h.lock
  pend := by
    rw [hs.pend]
    exact h.pend

/-- What the session sees of the ledger is what is committed. -/
theorem Exclusive.view {w : World Store Lock Obs} (h : Exclusive w) :
    Frozen w.db w.view := h.pend w.db

/-- The accounts are compared one by one, with the same money throughout. -/
theorem look_accountMismatches (rows : List (MockAccount × Option LedgerAccount)) :
    ∀ {w : World Store Lock Obs}, Exclusive w →
      Look (safetyCtx p) (accountMismatches rows) w
        (fun ms w' => accountMismatchesOf w'.db rows = .ok ms) anyError := by
  have hΓ := safetyCtx_lawful p
  induction rows with
  | nil => exact fun _ => Look.ret hΓ rfl
  | cons row rest ih =>
      intro w hw
      obtain ⟨account, _ | ledger⟩ := row
      · exact Look.raise hΓ trivial
      · refine Look.bind hΓ (look_fetch anyError_faults _) fun total w1 h1 htotal => ?_
        refine Look.bind hΓ (ih (hw.near h1)) fun others w2 h2 hothers => Look.ret hΓ ?_
        -- the total was read a moment ago, and nothing has moved since
        have hsame : entryTotal ledger.pk w2.db = total := by
          rw [htotal, (hw.near h1).view.entryTotal, ((hw.near h1).frozen h2.toNear).entryTotal]
        rw [accountMismatchesOf, hothers]
        show Except.ok (if entryTotal ledger.pk w2.db != account.balance then _ else _) = _
        rw [hsame]

/-- **SNAPSHOT**: the queries of `ledger_mismatches` answer as one. -/
theorem look_ledgerMismatches {w : World Store Lock Obs} (hw : Exclusive w) :
    Look (safetyCtx p) ledgerMismatches w
      (fun ms w' => mismatchesOf w'.db = .ok ms) anyError := by
  have hΓ := safetyCtx_lawful p
  refine Look.bind hΓ (look_fetch anyError_faults _) fun journals w1 h1 hjournals => ?_
  refine Look.bind hΓ (look_fetch anyError_faults _) fun rows w2 h2 hrows => ?_
  refine Look.bind hΓ (look_accountMismatches rows ((hw.near h1).near h2))
    fun others w3 h3 hothers => Look.ret hΓ ?_
  have hw1 := hw.near h1
  have hw2 := hw1.near h2
  have h13 : Frozen w1.db w3.db := hw1.frozen (h2.trans hΓ h3).toNear
  have h23 : Frozen w2.db w3.db := hw2.frozen h3.toNear
  have hj : unbalancedJournals w3.db = journals := by
    rw [hjournals, unbalancedJournals, unbalancedJournals, h13.journals, h13.entries,
      hw1.view.journals, hw1.view.entries]
  have hr : (w3.db.accounts.map fun a =>
      (a, w3.db.ledgerAccounts.find? (·.mockAccount == some a.pk))) = rows := by
    rw [hrows, h23.accounts, h23.ledgerAccounts, hw2.view.accounts, hw2.view.ledgerAccounts]
  rw [mismatchesOf, hr, hothers, hj]
  rfl

/-! ## The transition -/

/-- The transition to the blocked state, when `verdict` of the mismatches says so. -/
def blockLedgerBody (verdict : List String → Bool) : M (List String) := do
  advisoryLock SAFETY_LOCK_KEY false
  let (state, _) ← safetyForUpdate
  let mismatches ← ledgerMismatches
  if state.state == .opened && verdict mismatches then do
    let incident ← Prog.fresh
    let now ← timezoneNow
    updateRows .safety [1]
      (setSafety { state := .blocked, incidentId := some incident, blockedAt := some now })
    return mismatches
  else return mismatches

def blockLedger (verdict : List String → Bool) : M (List String) :=
  atomic (blockLedgerBody verdict)

/-- The safety state, found or made, is all that is written. -/
theorem SafetyEnd.exclusive {w w' : World Store Lock Obs} {r : TransferSafetyState × Bool}
    (h : SafetyEnd w r w') (hw : Exclusive w) (hn : Near (safetyCtx p) w w') :
    Exclusive w' where
  lock := hn.held hw.lock
  pend s := by
    cases hr : r.2 with
    | false =>
        rw [(h.found hr).1]
        exact hw.pend s
    | true =>
        rw [(h.created hr).2.2]
        exact (hw.pend s).trans ⟨⟨rfl, rfl, rfl, rfl⟩, rfl⟩

/-- **SPECIFICATION** of the transaction that blocks. -/
theorem body_blockLedger {w : World Store Lock Obs} (verdict : List String → Bool)
    (hpend : w.sess.pend = id) (hopen : w.sess.frames ≠ []) :
    Body (safetyCtx p) (blockLedgerBody verdict) w
      (fun ms w' => Exclusive w' ∧ mismatchesOf w'.db = .ok ms) anyError := by
  have hA := safetyCtx_abides p
  have hΓ := hA.lawful
  refine Body.look hΓ (Look.acquire anyError_faults _) fun _ w1 h1 hlock => ?_
  have hpend1 : w1.sess.pend = id := h1.pend.trans hpend
  have hw1 : Exclusive w1 := ⟨hlock, fun s => by rw [hpend1]; exact Frozen.refl s⟩
  refine Body.bind hΓ (body_safetyForUpdate hA (by rw [h1.frames]; exact hopen)
    fun s hs => by rw [hpend1] at hs; exact hs) fun ⟨state, new⟩ w2 h2 hsafety => ?_
  have hw2 : Exclusive w2 := hsafety.exclusive hw1 h2.toNear
  refine Body.look hΓ (look_ledgerMismatches hw2) fun ms w3 h3 hms => ?_
  have hw3 : Exclusive w3 := hw2.near h3
  split
  · refine Body.look hΓ Look.fresh fun incident w4 h4 _ => ?_
    refine Body.look hΓ Look.fresh fun now w5 h5 _ => ?_
    have h35 : Still (safetyCtx p) w3 w5 := h4.trans hΓ h5
    have hw5 : Exclusive w5 := hw3.near h35
    refine Body.bind hΓ (body_updateRows hΓ anyError_faults fun held hsub hrow s => ?_)
      fun _ w6 h6 hp6 => Body.ret hΓ ⟨⟨h6.held hw5.lock, fun s => ?_⟩, ?_⟩
    · exact hA.leave _ _ _ (respects_setSafety (hsub hw5.lock) (hrow 1 List.mem_cons_self))
    · rw [hp6.1]
      exact (hw5.pend s).trans ⟨⟨rfl, rfl, rfl, rfl⟩, rfl⟩
    · rw [← hms]
      exact mismatchesOf_same
        ((hw3.frozen h35.toNear).trans (hw5.frozen h6.toNear)).toSameLedger
  · exact Body.ret hΓ ⟨hw3, hms⟩

/-- How a transition leaves its session: its answer is `ledger_mismatches()` of the
    store that its commit was made to. -/
def BlockPost (r : Except Exn (List String)) (w : World Store Lock Obs) : Prop :=
  Idle w ∧ ∀ ms, r = .ok ms →
    ∃ s s', (s, s') ∈ commitsOf w.sess.hist ∧ mismatchesOf s = .ok ms

/-- **SPECIFICATION** of the transition. -/
theorem wp_blockLedger {w : World Store Lock Obs} (verdict : List String → Bool)
    (hi : Idle w) : wp (safetyCtx p) (blockLedger verdict) BlockPost w := by
  refine wp_transaction (safetyCtx_lawful p) (F := anyError) hi
    (fun w' he => body_blockLedger verdict ?_ ?_)
    anyError_faults (fun _ _ _ hidle _ _ => ⟨hidle, fun _ h => nomatch h⟩) ?_
  · rw [World.begin_pend, he.sess]
    exact hi.pend
  · rw [World.begin_frames]
    exact List.cons_ne_nil _ _
  · intro w' ms w1 w2 _ _ ⟨hw1, hms⟩ he2 hleave
    have hw2 : Exclusive w2 := hw1.near he2.still
    have hfrozen : Frozen w2.db w2.view := hw2.view
    refine ⟨fun _ => ⟨⟨hleave, .quiet hfrozen.quiet, Or.inl hfrozen⟩, publish_idle w2, ?_⟩,
      fun _ _ => trivial⟩
    rintro _ ⟨⟩
    refine ⟨w2.db, w2.view, List.mem_cons_self, ?_⟩
    rw [← hms]
    exact mismatchesOf_same (hw1.frozen he2.still.toNear).toSameLedger

/-! ## `handle`, and the operations that move money -/

section Safe

variable {Γ : Ctx Store Lock Exn Obs} {ls : List Lock}

/-- The comparison reads only. -/
theorem safe_accountMismatches (hΓ : Lawful Γ)
    (rows : List (MockAccount × Option LedgerAccount)) :
    Safe Γ ls (accountMismatches rows) := by
  induction rows with
  | nil => exact Safe.ret hΓ _
  | cons row rest ih =>
      obtain ⟨account, _ | ledger⟩ := row
      · exact Safe.raise hΓ _
      · exact Safe.bind hΓ (safe_fetch hΓ _) fun _ => Safe.bind hΓ ih fun _ => Safe.ret hΓ _

/-- So do the sums. -/
theorem safe_ledgerMismatches (hΓ : Lawful Γ) : Safe Γ ls ledgerMismatches :=
  Safe.bind hΓ (safe_fetch hΓ _) fun _ => Safe.bind hΓ (safe_fetch hΓ _) fun rows =>
    Safe.bind hΓ (safe_accountMismatches hΓ rows) fun _ => Safe.ret hΓ _

/-- The safety state may be made, and changed under the exclusive lock and its row's. -/
structure MayBlock (Γ : Ctx Store Lock Exn Obs) : Prop where
  add : ∀ held, .unique (.pk .safety 1) ∈ held → ∀ s, Γ.leave held s (addSafety {} s)
  set : ∀ held t, .advisory SAFETY_LOCK_KEY false ∈ held → .row .safety 1 ∈ held →
    ∀ s, Γ.leave held s (setSafety t s)

/-- The state is set under the safety lock. -/
theorem safe_setSafety (hΓ : Lawful Γ) (h : MayBlock Γ)
    (hlock : .advisory SAFETY_LOCK_KEY false ∈ ls) (t : TransferSafetyState) :
    Safe Γ ls (updateRows .safety [1] (setSafety t)) :=
  Safe.lockedWrite hΓ _ fun held hls hrow s =>
    h.set held t (hls _ hlock) (hrow _ List.mem_cons_self) s

/-- The command sets the state, or does not. -/
theorem safe_handleMismatches (hΓ : Lawful Γ) (h : MayBlock Γ)
    (hlock : .advisory SAFETY_LOCK_KEY false ∈ ls) (resume : Option String)
    (currentRole expectedRole : String) (state : TransferSafetyState)
    (mismatches : List String) :
    Safe Γ ls (handleMismatches p resume currentRole expectedRole state mismatches) := by
  have hreport : Safe Γ ls (reportMismatches state mismatches) := by
    rw [reportMismatches]
    split
    · split
      · exact Safe.bind hΓ (Safe.fresh hΓ) fun _ => Safe.bind hΓ (Safe.fresh hΓ) fun _ =>
          Safe.bind hΓ (safe_setSafety hΓ h hlock _) fun _ => Safe.raise hΓ _
      · exact Safe.raise hΓ _
    · exact Safe.ret hΓ _
  cases resume with
  | none => exact hreport
  | some rawIncident =>
      rw [handleMismatches]
      split
      · exact hreport
      · rw [resumeIncident]
        split
        · exact Safe.raise hΓ _
        · refine Safe.bind hΓ (safe_fetch hΓ _) fun _ => Safe.bind hΓ (Safe.raiseIf hΓ _ _)
            fun _ => Safe.bind hΓ (Safe.raiseIf hΓ _ _) fun _ => ?_
          exact Safe.bind hΓ (Safe.raiseIf hΓ _ _) fun _ =>
            Safe.bind hΓ (safe_setSafety hΓ h hlock _) fun _ => Safe.ret hΓ _

/-- What both transactions begin with: the exclusive lock and the safety state. -/
theorem safe_reconciling (hΓ : Lawful Γ) (h : MayBlock Γ) {α : Type}
    {f : TransferSafetyState × Bool → M α}
    (hf : ∀ r, Safe Γ ([.advisory SAFETY_LOCK_KEY false] ++ ls) (f r)) :
    Safe Γ ls (do
      advisoryLock SAFETY_LOCK_KEY false
      let r ← safetyForUpdate
      f r) := by
  refine Safe.bindLocked (P := fun _ => True) hΓ
    (fun _ => [.advisory SAFETY_LOCK_KEY false])
    (fun w => (Look.acquire anyError_faults _).mono fun _ _ _ hl => ⟨trivial, ?_⟩)
    fun _ _ => Safe.bind hΓ (safe_getOrCreate hΓ (fun w => ?_) ?_) hf
  · intro l hm
    rw [List.mem_singleton.mp hm]
    exact hl
  · exact look_true (look_firstForUpdate hΓ anyError_faults _ _ _ _)
  · exact Safe.bind hΓ (safe_insertRow hΓ fun held _ hkeys s =>
      h.add held (hkeys _ List.mem_cons_self) s) fun _ => Safe.ret hΓ _

/-- The command, in its transaction. -/
theorem safe_handleBody (hΓ : Lawful Γ) (h : MayBlock Γ) (resume : Option String)
    (currentRole expectedRole : String) :
    Safe Γ ls (handleBody p resume currentRole expectedRole) :=
  safe_reconciling hΓ h fun _ => Safe.bind hΓ (safe_ledgerMismatches hΓ) fun _ =>
    safe_handleMismatches hΓ h List.mem_cons_self _ _ _ _ _

end Safe

/-- The transition, in its transaction. -/
theorem safe_blockLedgerBody {Γ : Ctx Store Lock Exn Obs} {ls : List Lock} (hΓ : Lawful Γ)
    (h : MayBlock Γ) (verdict : List String → Bool) :
    Safe Γ ls (blockLedgerBody verdict) := by
  refine safe_reconciling hΓ h fun state => ?_
  refine Safe.bind hΓ (safe_ledgerMismatches hΓ) fun ms => ?_
  split
  · exact Safe.bind hΓ (Safe.fresh hΓ) fun _ => Safe.bind hΓ (Safe.fresh hΓ) fun _ =>
      Safe.bind hΓ (safe_setSafety hΓ h List.mem_cons_self _) fun _ => Safe.ret hΓ _
  · exact Safe.ret hΓ _

/-- To freeze the money is a relation of steps. -/
theorem frozen_composes : Composes Frozen :=
  ⟨Frozen.refl, fun _ _ _ => Frozen.trans⟩

/-- A transaction that makes or changes the safety state only. -/
theorem top_safetyOnly {Γ : Ctx Store Lock Exn Obs} (hA : Abides p Γ)
    {W : Store → Store → Prop} (hW : Composes W)
    (hset : ∀ s t, W s { s with safety := t })
    (hguar : ∀ held s s', Γ.leave held s s' → W s s' → Γ.guar held s s') {α : Type}
    {m : M α} (hm : ∀ Γ', Lawful Γ' → MayBlock Γ' → Safe Γ' [] m) : Top Γ (atomic m) := by
  refine Top.atomicFramed hA.lawful (hm Γ hA.lawful ?_) (hm _ (frame_lawful _ hW) ?_) hguar
  · exact ⟨fun held hkey s => hA.leave _ _ _ (respects_addSafety hkey),
      fun held t hlock hrow s => hA.leave _ _ _ (respects_setSafety hlock hrow)⟩
  · exact ⟨fun _ _ s => hset s _, fun _ _ _ _ s => hset s _⟩

/-- An account is closed under the shared lock, and not against a block. -/
theorem CloseEnd.safety {user : Nat} {held : List Lock} {s : Store} {r : Bool}
    {f : Store → Store} (h : CloseEnd user held s r f) : SafetyStep held s (f s) := by
  cases h with
  | already new => cases new <;> exact Or.inl ⟨⟨rfl, rfl, rfl, rfl⟩, rfl⟩
  | closed new a now ha => exact Or.inr ⟨ha.safetyLock, ha.notBlocked.state⟩

/-- A transfer moves money under the shared lock, and not against a block. -/
theorem TransferStep.safety {c : Call} {r : TransferResult} {held : List Lock}
    {s s' : Store} (h : TransferStep p c r held s s') : SafetyStep held s s' := by
  obtain ⟨g, ⟨f, notes, hexec, -, rfl⟩, rfl⟩ := h
  cases hexec with
  | replayed _ => exact Or.inl ⟨⟨rfl, rfl, rfl, rfl⟩, rfl⟩
  | denied q _ _ _ => exact Or.inl ⟨⟨rfl, rfl, rfl, rfl⟩, rfl⟩
  | moved m hm _ =>
      refine Or.inr ⟨hm.safetyLock, fun t ht => ?_⟩
      obtain ⟨u, hu, ho⟩ := hm.safety
      rw [ht] at hu
      cases hu
      exact ho

/-! ## Every run -/

/-- The operations under the safety lock. -/
inductive SafetyOp where
  | transfer (user : Nat) (recipientName : String) (amount : Amount) (key : Uuid)
  | transferForProductRoom (user room : Nat) (amount : Amount) (key : Uuid)
  | closeAccount (user : Nat)
  | blockLedger (verdict : List String → Bool)
  | handle (resume : Option String) (currentRole expectedRole : String)

/-- The transaction of an operation; only the transition has mismatches to tell. -/
def SafetyOp.run (p : Platform) : SafetyOp → M (List String)
  | .transfer user recipientName amount key => do
      let _ ← Market.transfer p user recipientName amount.money key none
      return []
  | .transferForProductRoom user room amount key => do
      let _ ← Market.transferForProductRoom p user room amount.money key
      return []
  | .closeAccount user => do
      let _ ← Market.closeAccount user
      return []
  | .blockLedger verdict => Market.blockLedger verdict
  | .handle resume currentRole expectedRole => do
      let _ ← Market.handle p resume currentRole expectedRole
      return []

/-- How an operation leaves its session. -/
def SafetyOp.post (op : SafetyOp) (r : Except Exn (List String))
    (w : World Store Lock Obs) : Prop :=
  match op with
  | .blockLedger _ => BlockPost r w
  | _ => Idle w

/-- **OPERATIONS**, each with what it promises. -/
theorem wp_safetyOp (op : SafetyOp) {w : World Store Lock Obs} (hi : Idle w) :
    wp (safetyCtx p) (op.run p) op.post w := by
  have hA := safetyCtx_abides p
  have hcommit : ∀ c : Call, 0 < c.amount → Commits p c (safetyCtx p) :=
    fun c hc r held s s' hleave h => ⟨hleave, h.money hc, h.safety⟩
  have hpost : ∀ {c : Call} {before} (r : Except Exn TransferResult) w,
      CallPost p c before r w → Idle w := fun _ _ h => h.1
  cases op with
  | transfer user name amount key =>
      refine Top.bind (fun w hi => ?_) (fun _ => Top.ret _) w hi
      exact wp_mono hpost (wp_transfer hA (hcommit ⟨user, amount.money, key,
        canonicalPayload name amount.money⟩ amount.money_pos) rfl hi)
  | transferForProductRoom user room amount key =>
      refine Top.bind (fun w hi => ?_) (fun _ => Top.ret _) w hi
      exact wp_mono hpost (wp_transferForProductRoom hA (hcommit ⟨user, amount.money, key,
        canonicalRoomPayload room amount.money⟩ amount.money_pos) rfl hi)
  | closeAccount user =>
      exact Top.bind (top_closeAccount hA fun r held s f hleave h =>
        ⟨hleave, .quiet (h.quiet s), h.safety⟩) (fun _ => Top.ret _) w hi
  | blockLedger verdict => exact wp_blockLedger verdict hi
  | handle resume currentRole expectedRole =>
      exact Top.bind (top_safetyOnly hA frozen_composes
        (fun _ _ => ⟨⟨rfl, rfl, rfl, rfl⟩, rfl⟩) (fun held s s' hleave h =>
          ⟨hleave, .quiet h.quiet, Or.inl h⟩) fun Γ' hΓ' hmay =>
          safe_handleBody hΓ' hmay resume currentRole expectedRole) (fun _ => Top.ret _) w hi

section Runs

variable {ι : Type} [DecidableEq ι] {ops : ι → SafetyOp} {now : Time}
  {c : Config ι Store Lock Exn Obs (List String)}

/-- Every session is correct. -/
theorem supported_safetyOps (hr : Reached s now (fun i => (ops i).run p) c) :
    Supported (fun _ => safetyCtx p) (fun i => (ops i).post) c ∧
      AllSee (fun _ _ _ _ => True) c := by
  have hfit := safetyCtx_fits (ι := ι) p
  have h := sound hfit hr (locksApart_start _ s now _)
    (supported_start hfit.lawful fun i => wp_safetyOp (ops i) ⟨rfl, rfl, rfl⟩)
    (fun _ _ _ _ h => nomatch h) (fun _ _ _ _ _ => trivial)
  exact ⟨h.2.1, fun _ _ _ _ _ => trivial⟩

/-- A commit to a blocked store leaves the ledger alone. -/
theorem frozen_of_blocked (hr : Reached s now (fun i => (ops i).run p) c) {who : Option ι}
    {c' : Config ι Store Lock Exn Obs (List String)}
    (hs : Step (postgres fun _ _ => False) who c c') (hb : Blocked c.db) :
    Frozen c.db c'.db := by
  obtain ⟨t, ht, hblocked⟩ := hb
  obtain ⟨hsup, hshown⟩ := supported_safetyOps hr
  cases who with
  | none =>
      cases hs with
      | tick _ t ht => exact Frozen.refl _
      | env _ s he => exact False.elim he
  | some i =>
      rcases guar_of_step (safetyCtx_fits p) hs hsup hshown (fun _ _ _ _ _ => trivial) with
        hdb | hg
      · rw [hdb]
        exact Frozen.refl _
      · -- what is not frozen is committed against no block
        refine hg.2.2.resolve_right fun ⟨_, hopen⟩ => ?_
        rw [hopen t ht] at hblocked
        exact nomatch hblocked

/-- **INVARIANT** of every run. -/
theorem ledgerInv_safetyOps (hr : Reached s now (fun i => (ops i).run p) c)
    (hi : LedgerInv s) : LedgerInv c.db := by
  have hfit := safetyCtx_fits (ι := ι) p
  exact store_invariant hfit (fun _ _ _ h => False.elim h)
    (fun _ _ _ _ hi hg => hi.step hg.2.1) hr (locksApart_start _ s now _)
    (supported_start hfit.lawful fun i => wp_safetyOp (ops i) ⟨rfl, rfl, rfl⟩)
    (fun _ _ _ _ h => nomatch h) (fun _ _ _ _ _ => trivial) hi

/-- What a transition answered is what `ledger_mismatches()` is of a store that was
    committed before. -/
theorem snapshot_of_transition (hr : Reached s now (fun i => (ops i).run p) c) {i : ι}
    {verdict : List String → Bool} {ms : List String}
    (hop : ops i = .blockLedger verdict) (hret : c.prog i = .ret ms) :
    ∃ d, Reached s now (fun i => (ops i).run p) d ∧
      Reaches (postgres fun _ _ => False) d c ∧ mismatchesOf d.db = .ok ms := by
  obtain ⟨w, he, hwp⟩ := (supported_safetyOps hr).1 i
  rw [hret] at hwp
  have hpost : (ops i).post (.ok ms) w := hwp
  rw [hop] at hpost
  obtain ⟨s1, s2, hmem, hms⟩ := hpost.2 ms rfl
  have hhist : (c.sess i).hist = w.sess.hist := congrArg Session.hist he.sess
  rw [← hhist] at hmem
  obtain ⟨d, d', hd, hstep, hafter, hdb, -⟩ := commit_reached hr rfl hmem
  refine ⟨d, hd, ((Reaches.refl _ d).step hstep).trans hafter, ?_⟩
  rw [hdb]
  exact hms

end Runs

/-- **NO LATE COMMIT**: in every interleaving, a commit to a blocked store leaves
    transfers, journals, entries, balances and open accounts as they are; and what a
    transition found is `ledger_mismatches()` of one committed store, which is nothing
    where the run began with a consistent ledger. -/
theorem no_late_commit {ι : Type} [DecidableEq ι] (p : Platform) (ops : ι → SafetyOp)
    {s : Store} {now : Time} {c : Config ι Store Lock Exn Obs (List String)}
    (hr : Reached s now (fun i => (ops i).run p) c) :
    (∀ who c', Step (postgres fun _ _ => False) who c c' → Blocked c.db →
      Frozen c.db c'.db) ∧
    ∀ i verdict ms, ops i = .blockLedger verdict → c.prog i = .ret ms →
      ∃ d, Reached s now (fun i => (ops i).run p) d ∧
        Reaches (postgres fun _ _ => False) d c ∧ mismatchesOf d.db = .ok ms ∧
        (LedgerInv s → ms = []) := by
  refine ⟨fun who c' hs hb => frozen_of_blocked hr hs hb, fun i verdict ms hop hret => ?_⟩
  obtain ⟨d, hd, hdc, hms⟩ := snapshot_of_transition hr hop hret
  refine ⟨d, hd, hdc, hms, fun hi => ?_⟩
  rw [(ledgerInv_safetyOps hd hi).mismatches] at hms
  exact (Except.ok.inj hms).symm

/-- An account whose ledger has no entries: a mismatch. -/
def unbackedAccount : Store where
  users := [{ pk := 1, username := "sender" }, { pk := 2, username := "recipient" }]
  accounts := [{ pk := 3, user := 1, balance := 5000 }, { pk := 4, user := 2, balance := 0 }]
  ledgerAccounts := [{ pk := 5, kind := .user, mockAccount := some 3, code := "USER:1" },
    { pk := 6, kind := .user, mockAccount := some 4, code := "USER:2" }]
  safety := some {}

/-- A transfer, and a transition to the blocked state on any mismatch. -/
def transferAndBlock : Fin 2 → SafetyOp
  | 0 => .transfer 1 "recipient" ⟨10, by decide, by decide⟩ 9
  | 1 => .blockLedger fun ms => !ms.isEmpty

/-- The transfer looks for its account, the ledger is blocked, and the transfer goes on:
    whatever step comes next, it commits nothing. -/
theorem no_late_commit_transferAndBlock :
    ∃ c : Config (Fin 2) Store Lock Exn Obs (List String),
      Reached unbackedAccount 0 (fun i => (transferAndBlock i).run plainPlatform) c ∧
        c.db.safety.map (·.state) = some .blocked ∧
        ∀ who c', Step (postgres fun _ _ => False) who c c' → Frozen c.db c'.db := by
  have hplay : (play validateBalancedJournal [.run 0 2 id, .run 1 100 id, .run 0 1 id]
      (Config.start unbackedAccount 0 fun i => (transferAndBlock i).run plainPlatform)).map
        (fun d => d.db.safety.map (·.state)) = some (some .blocked) := by decide +kernel
  obtain ⟨c, hr, hstate⟩ :=
    reaches_of_play (D := postgres fun _ _ => False) (f := fun d => _) hplay
  obtain ⟨t, ht, hblocked⟩ := Option.map_eq_some_iff.mp hstate
  exact ⟨c, hr, hstate, fun who c' hs =>
    (no_late_commit plainPlatform transferAndBlock hr).1 who c' hs ⟨t, ht, hblocked⟩⟩

end Market
