import Marketplace.BlockedProofs

/-! # What a run of `reconcile_mock_ledger` commits

    The command raises to signal mismatches, inside the transaction that wrote
    `BLOCKED`: the block is rolled back with it.  `reconciles_iff` says when the
    committed safety state is the one that the command is there to leave. -/

namespace Market

open TxnProgram TxnRuns

variable {d : Store → Store → Option Exn} {ids : Nat → Nat} {s : Store}
  {now start : Time} {p : Platform} {currentRole expectedRole : String}

/-! ## What the command reads -/

/-- The committed safety state; a missing row counts as the one that is made for it. -/
def safetyOf (s : Store) : TransferSafetyState := s.safety.getD {}

/-- The store once the row of the safety state is there. -/
def withSafety (s : Store) : Store := { s with safety := some (safetyOf s) }

theorem safetyOf_withSafety (s : Store) : safetyOf (withSafety s) = safetyOf s := rfl

/-- The second loop of `ledger_mismatches` over one store. -/
def accountMismatchesOf (s : Store) :
    List (MockAccount × Option LedgerAccount) → Except Exn (List String)
  | [] => .ok []
  | (_, none) :: _ => .error (.relatedObjectDoesNotExist .ledgerAccount)
  | (account, some ledger) :: rest =>
      (accountMismatchesOf s rest).map fun others =>
        if entryTotal ledger.pk s != account.balance then
          ("account:" ++ toString account.pk) :: others else others

/-- `ledger_mismatches()` of a store. -/
def mismatchesOf (s : Store) : Except Exn (List String) :=
  (accountMismatchesOf s (s.accounts.map fun a =>
    (a, s.ledgerAccounts.find? (·.mockAccount == some a.pk)))).map fun others =>
      (unbalancedJournals s).map (fun j => uuidStr j.pk) ++ others

/-- The option `--resume`, where an empty text counts as none. -/
def resumeAsked (resume : Option String) : Option String := resume.filter (!·.isEmpty)

theorem ends_accountMismatches :
    ∀ rows : List (MockAccount × Option LedgerAccount),
      Ends d (accountMismatches rows) ids s now start (accountMismatchesOf s rows) ids id := by
  intro rows
  induction rows with
  | nil => exact Ends.ret _
  | cons row rest ih =>
      obtain ⟨account, _ | ledger⟩ := row
      · exact Ends.raise _
      · refine Ends.look (ends_fetch _) ?_
        cases hrest : accountMismatchesOf s rest with
        | error e =>
            rw [hrest] at ih
            rw [accountMismatchesOf, hrest]
            exact Ends.bindError ih
        | ok others =>
            rw [hrest] at ih
            rw [accountMismatchesOf, hrest]
            exact Ends.look ih (Ends.ret _)

theorem ends_ledgerMismatches :
    Ends d ledgerMismatches ids s now start (mismatchesOf s) ids id := by
  refine Ends.look (ends_fetch _) (Ends.look (ends_fetch _) ?_)
  let rows := s.accounts.map fun a =>
    (a, s.ledgerAccounts.find? (·.mockAccount == some a.pk))
  have hrows : Ends d (accountMismatches rows) ids s now start
      (accountMismatchesOf s rows) ids id := ends_accountMismatches rows
  cases hm : accountMismatchesOf s rows with
  | error e =>
      rw [hm] at hrows
      rw [mismatchesOf, hm]
      exact Ends.bindError hrows
  | ok others =>
      rw [hm] at hrows
      rw [mismatchesOf, hm]
      exact Ends.look hrows (Ends.ret _)

/-- The locked row of the safety state, made when it is missing. -/
theorem ends_safetyForUpdate_any (ids : Nat → Nat) (s : Store) (now start : Time) :
    ∃ (created : Bool) (g : Store → Store),
      Ends d safetyForUpdate ids s now start (.ok (safetyOf s, created)) ids g ∧
      g s = withSafety s := by
  cases ht : s.safety with
  | some t =>
      refine ⟨false, id, ?_, ?_⟩
      · rw [safetyOf, ht]
        exact ends_safetyForUpdate ht
      · rw [withSafety, safetyOf, ht]
        exact ht ▸ rfl
  | none =>
      have hfind : Ends d (firstForUpdate .safety (fun s => s.safety.toList) (fun _ => 1)
          fun _ => true) ids s now start (.ok (s.safety.toList.find? fun _ => true)) ids
          id := ends_firstForUpdate _ _ _ _
      rw [ht] at hfind
      refine ⟨true, addSafety {}, ?_, ?_⟩
      · rw [safetyOf, ht]
        refine ends_getOrCreate_created hfind (Ends.bindLook (ends_insertRow _ ?_)
          (Ends.ret _))
        intro i hi
        rw [List.mem_singleton.mp hi]
        show (1 == 1 && s.safety.isSome) = false
        rw [ht]
        rfl
      · show { s with safety := s.safety.or (some {}) } = _
        rw [withSafety, safetyOf, ht]
        rfl

/-- The tables that `ledger_mismatches()` reads are the same. -/
structure SameLedger (s s' : Store) : Prop where
  accounts : s'.accounts = s.accounts
  ledgerAccounts : s'.ledgerAccounts = s.ledgerAccounts
  journals : s'.journals = s.journals
  entries : s'.entries = s.entries

theorem SameLedger.entryTotal {s s' : Store} (h : SameLedger s s') (n : Nat) :
    entryTotal n s' = entryTotal n s := by
  rw [Market.entryTotal, Market.entryTotal, h.entries]

theorem accountMismatchesOf_same {s s' : Store} (h : SameLedger s s')
    (rows : List (MockAccount × Option LedgerAccount)) :
    accountMismatchesOf s' rows = accountMismatchesOf s rows := by
  induction rows with
  | nil => rfl
  | cons row rest ih =>
      obtain ⟨account, _ | ledger⟩ := row
      · rfl
      · rw [accountMismatchesOf, accountMismatchesOf, ih, h.entryTotal]

theorem mismatchesOf_same {s s' : Store} (h : SameLedger s s') :
    mismatchesOf s' = mismatchesOf s := by
  have hjournals : unbalancedJournals s' = unbalancedJournals s := by
    rw [unbalancedJournals, unbalancedJournals, h.journals, h.entries]
  rw [mismatchesOf, mismatchesOf, accountMismatchesOf_same h, h.accounts,
    h.ledgerAccounts, hjournals]

/-- The row is made of what was there: nothing else is read differently. -/
theorem mismatchesOf_withSafety (s : Store) :
    mismatchesOf (withSafety s) = mismatchesOf s := mismatchesOf_same ⟨rfl, rfl, rfl, rfl⟩

/-! ## A run of the command -/

section Run

variable {resume : Option String} {ms : List String}

/-- The whole body, around what follows the checks. -/
theorem ends_handleBody (hm : mismatchesOf s = .ok ms) {r : Except Exn String}
    {ids' : Nat → Nat} {g : Store → Store}
    (h : Ends d (handleMismatches p resume currentRole expectedRole (safetyOf s) ms) ids
      (withSafety s) now start r ids' g) :
    ∃ f : Store → Store, f s = withSafety s ∧
      Ends d (handleBody p resume currentRole expectedRole) ids s now start r ids'
        (fun x => g (f x)) := by
  obtain ⟨created, f, hf, hfs⟩ := ends_safetyForUpdate_any (d := d) ids s now start
  have hrows : Ends d ledgerMismatches ids (withSafety s) now start (.ok ms) ids id := by
    rw [← hm, ← mismatchesOf_withSafety]
    exact ends_ledgerMismatches
  refine ⟨f, hfs, Ends.look (Ends.acquire _) (Ends.bind hf ?_)⟩
  rw [hfs]
  exact Ends.look hrows h

/-- When the rest answers, the run commits what it wrote. -/
theorem handle_answers (hm : mismatchesOf s = .ok ms) {r : String} {ids' : Nat → Nat}
    {g : Store → Store}
    (h : Ends validateBalancedJournal
      (handleMismatches p resume currentRole expectedRole (safetyOf s) ms) ids
      (withSafety s) now now (.ok r) ids' g)
    (hj : (g (withSafety s)).journals = s.journals)
    (he : (g (withSafety s)).entries = s.entries) :
    (call (handle p resume currentRole expectedRole) ids now s).2 = g (withSafety s) := by
  obtain ⟨f, hfs, hbody⟩ := ends_handleBody hm h
  have hcall := call_ok hbody (validateBalancedJournal_same (by rw [hfs]; exact hj)
    (by rw [hfs]; exact he))
  rw [hfs] at hcall
  exact congrArg Prod.snd hcall

/-- When the rest raises, the run leaves the store as it was. -/
theorem handle_raises (hm : mismatchesOf s = .ok ms)
    (h : Fails validateBalancedJournal
      (handleMismatches p resume currentRole expectedRole (safetyOf s) ms) ids
      (withSafety s) now now) :
    (call (handle p resume currentRole expectedRole) ids now s).2 = s := by
  obtain ⟨e, ids', g, h⟩ := h
  obtain ⟨f, -, hbody⟩ := ends_handleBody hm h
  exact congrArg Prod.snd (call_error hbody)

/-- A ledger that cannot be checked: the run raises. -/
theorem handle_unchecked {e : Exn} (hm : mismatchesOf s = .error e) :
    (call (handle p resume currentRole expectedRole) ids now s).2 = s := by
  obtain ⟨created, f, hf, hfs⟩ :=
    ends_safetyForUpdate_any (d := validateBalancedJournal) ids s now now
  have hrows : Ends validateBalancedJournal ledgerMismatches ids (withSafety s) now now
      (.error e) ids id := by
    rw [← hm, ← mismatchesOf_withSafety]
    exact ends_ledgerMismatches
  have hbody : Fails validateBalancedJournal
      (handleBody p resume currentRole expectedRole) ids s now now := by
    refine Fails.after (Ends.acquire _) (Fails.after hf ?_)
    show Fails _ _ _ (f s) _ _
    rw [hfs]
    exact Fails.bind ⟨_, _, _, hrows⟩
  obtain ⟨e, ids', g, hbody⟩ := hbody
  exact congrArg Prod.snd (call_error hbody)

/-- The branch without `--resume` never leaves another safety state. -/
theorem handle_reports (hasked : resumeAsked resume = none) :
    safetyOf (call (handle p resume currentRole expectedRole) ids now s).2 = safetyOf s := by
  cases hm : mismatchesOf s with
  | error e => rw [handle_unchecked hm]
  | ok ms =>
      have hrest : handleMismatches p resume currentRole expectedRole (safetyOf s) ms =
          reportMismatches (safetyOf s) ms := by
        cases resume with
        | none => rfl
        | some text =>
            have hempty : text.isEmpty = true := by
              by_contra hne
              rw [resumeAsked, Option.filter_some_pos
                (by rw [Bool.eq_false_iff.mpr hne]; rfl)] at hasked
              exact nomatch hasked
            rw [handleMismatches, if_pos hempty]
      cases ms with
      | nil =>
          have hends : Ends validateBalancedJournal
              (handleMismatches p resume currentRole expectedRole (safetyOf s) []) ids
              (withSafety s) now now (.ok ((safetyOf s).state.text ++ ": mismatches=0")) ids
              id := by
            rw [hrest]
            exact Ends.ret _
          rw [handle_answers hm hends rfl rfl]
          exact safetyOf_withSafety s
      | cons m ms =>
          rw [handle_raises hm]
          rw [hrest]
          cases hstate : (safetyOf s).state with
          | opened =>
              rw [reportMismatches, if_pos (by rfl), hstate]
              exact ⟨_, _, _, Ends.look Ends.fresh (Ends.look Ends.fresh
                (Ends.bind (ends_updateRows _ _ _) (Ends.raise _)))⟩
          | blocked =>
              rw [reportMismatches, if_pos (by rfl), hstate]
              exact ⟨_, _, _, Ends.raise _⟩

/-- What `--resume` asks for: the text is the identifier of the active incident, the
    ledger has no mismatch, and the role is the maintainer's. -/
structure ResumeAllowed (p : Platform) (text currentRole expectedRole : String)
    (s : Store) : Prop where
  incident : ∃ u, p.parseUuid text = some u ∧ (safetyOf s).incidentId = some u
  clean : mismatchesOf s = .ok []
  role : currentRole = expectedRole

/-- An incident is active only while the state is blocked. -/
theorem blocked_of_incident {t : TransferSafetyState} {u : Uuid}
    (h : t.incidentId = some u) : t.state = .blocked := by
  obtain ⟨state, incident, blockedAt, hfit⟩ := t
  cases h
  cases state with
  | opened => exact nomatch hfit
  | blocked => rfl

theorem handleMismatches_resume {text : String} (hasked : resumeAsked resume = some text)
    (ms : List String) :
    handleMismatches p resume currentRole expectedRole (safetyOf s) ms =
      resumeIncident p text currentRole expectedRole (safetyOf s) ms := by
  obtain ⟨hresume, hne⟩ := Option.filter_eq_some_iff.mp hasked
  rw [hresume, handleMismatches, if_neg]
  intro hempty
  rw [hempty] at hne
  exact nomatch hne

/-- **RESUME**: what is allowed opens the state. -/
theorem handle_resume_allowed {text : String} (hasked : resumeAsked resume = some text)
    (h : ResumeAllowed p text currentRole expectedRole s) :
    safetyOf (call (handle p resume currentRole expectedRole) ids now s).2 = {} := by
  obtain ⟨⟨u, hu, hincident⟩, hclean, hrole⟩ := h
  have hends : Ends validateBalancedJournal
      (handleMismatches p resume currentRole expectedRole (safetyOf s) []) ids
      (withSafety s) now now (.ok "OPEN") ids
      (setSafety { state := .opened, incidentId := none, blockedAt := none }) := by
    rw [handleMismatches_resume hasked, resumeIncident, hu, hrole]
    refine Ends.look (ends_fetch _) (Ends.look (Ends.raiseIf_false (bne_self_eq_false _))
      (Ends.look (Ends.raiseIf_false ?_) (Ends.look (Ends.raiseIf_false rfl)
        (Ends.bindLook (ends_updateRows _ _ _) (Ends.ret _)))))
    rw [blocked_of_incident hincident, hincident, bne_self_eq_false, bne_self_eq_false]
    rfl
  rw [handle_answers hclean hends rfl rfl]
  rfl

/-- **RESUME**: what is not allowed leaves the store as it was. -/
theorem handle_resume_refused {text : String} (hasked : resumeAsked resume = some text)
    (h : ¬ ResumeAllowed p text currentRole expectedRole s) :
    (call (handle p resume currentRole expectedRole) ids now s).2 = s := by
  cases hm : mismatchesOf s with
  | error e => exact handle_unchecked hm
  | ok ms =>
      refine handle_raises hm ?_
      rw [handleMismatches_resume hasked, resumeIncident]
      cases hu : p.parseUuid text with
      | none => exact ⟨_, _, _, Ends.raise _⟩
      | some u =>
          refine Fails.after (ends_fetch _) ?_
          by_cases hrole : currentRole = expectedRole
          · refine Fails.after (Ends.raiseIf_false (bne_eq_false_iff_eq.mpr hrole)) ?_
            by_cases hincident : (safetyOf s).incidentId = some u
            · refine Fails.after (Ends.raiseIf_false ?_) ?_
              · rw [blocked_of_incident hincident, hincident, bne_self_eq_false,
                  bne_self_eq_false]
                rfl
              · cases ms with
                | nil => exact absurd ⟨⟨u, hu, hincident⟩, hm, hrole⟩ h
                | cons m ms => exact Fails.bind ⟨_, _, _, Ends.raiseIf_true rfl⟩
            · refine Fails.bind ⟨_, _, _, Ends.raiseIf_true ?_⟩
              rw [Bool.or_eq_true]
              exact Or.inr (bne_iff_ne.mpr hincident)
          · exact Fails.bind ⟨_, _, _, Ends.raiseIf_true (bne_iff_ne.mpr hrole)⟩

end Run

/-! ## The committed safety state -/

/-- With this safety state committed, every transfer of a new key is refused. -/
def NewKeysRefused (t : TransferSafetyState) : Prop :=
  ∀ s p user name amount key account ids now, safetyOf s = t →
    senderOf user s = some account → requestOf account.pk key s = none →
    call (transfer p user name amount key none) ids now s = (.error .transferUnavailable, s)

theorem newKeysRefused_of_blocked {t : TransferSafetyState} (h : t.state = .blocked) :
    NewKeysRefused t := by
  intro s p user name amount key account ids now ht haccount hkey
  refine transfer_refused ⟨t, ?_, h⟩ haccount hkey name amount
  cases hs : s.safety with
  | some t' =>
      rw [safetyOf, hs] at ht
      exact congrArg some ht
  | none =>
      -- a missing row counts as open
      rw [safetyOf, hs] at ht
      rw [← ht] at h
      exact nomatch h

/-- A run that leaves `s'` over `s` fails closed, and resumes only safely. -/
structure Reconciles (p : Platform) (resume : Option String)
    (currentRole expectedRole : String) (s s' : Store) : Prop where
  /-- Mismatches leave the state blocked, under the incident it had if it had one. -/
  blocks : resumeAsked resume = none → (∃ m ms, mismatchesOf s = .ok (m :: ms)) →
    (safetyOf s').state = .blocked ∧ (safetyOf s').incidentId ≠ none ∧
      (safetyOf s').blockedAt ≠ none ∧ NewKeysRefused (safetyOf s') ∧
      ((safetyOf s).state = .blocked → safetyOf s' = safetyOf s)
  /-- Without mismatches, and without `--resume`, the state is left alone. -/
  keeps : resumeAsked resume = none → mismatchesOf s = .ok [] → safetyOf s' = safetyOf s
  /-- `--resume` opens exactly what it may. -/
  resumes : ∀ text, resumeAsked resume = some text →
    ((safetyOf s).state = .blocked ∧ (safetyOf s').state = .opened ↔
      ResumeAllowed p text currentRole expectedRole s) ∧
    (¬ ResumeAllowed p text currentRole expectedRole s → safetyOf s' = safetyOf s)

/-- A blocked state names its incident and its time. -/
theorem incident_of_blocked {t : TransferSafetyState} (h : t.state = .blocked) :
    t.incidentId ≠ none ∧ t.blockedAt ≠ none := by
  obtain ⟨state, incident, blockedAt, hfit⟩ := t
  cases h
  cases incident with
  | none => exact nomatch hfit
  | some u =>
      cases blockedAt with
      | none => exact nomatch hfit
      | some n => exact ⟨Option.some_ne_none u, Option.some_ne_none n⟩

/-- The command reconciles exactly when it does not meet mismatches, without `--resume`,
    in an open state. -/
theorem reconciles_iff (p : Platform) (resume : Option String)
    (currentRole expectedRole : String) (ids : Nat → Nat) (now : Time) (s : Store) :
    Reconciles p resume currentRole expectedRole s
        (call (handle p resume currentRole expectedRole) ids now s).2 ↔
      (resumeAsked resume = none → (∃ m ms, mismatchesOf s = .ok (m :: ms)) →
        (safetyOf s).state = .blocked) := by
  constructor
  · intro h hasked hms
    have hblocked := (h.blocks hasked hms).1
    rw [handle_reports hasked] at hblocked
    exact hblocked
  · intro h
    refine ⟨fun hasked hms => ?_, fun hasked _ => handle_reports hasked,
      fun text hasked => ?_⟩
    · have hblocked := h hasked hms
      rw [handle_reports hasked]
      exact ⟨hblocked, (incident_of_blocked hblocked).1, (incident_of_blocked hblocked).2,
        newKeysRefused_of_blocked hblocked, fun _ => rfl⟩
    · refine ⟨⟨fun ⟨hblocked, hopened⟩ => ?_, fun hallowed => ⟨?_, ?_⟩⟩, fun hnot => ?_⟩
      · by_contra hnot
        rw [handle_resume_refused hasked hnot, hblocked] at hopened
        exact nomatch hopened
      · obtain ⟨u, -, hincident⟩ := hallowed.incident
        exact blocked_of_incident hincident
      · rw [handle_resume_allowed hasked hallowed]
      · rw [handle_resume_refused hasked hnot]

/-- Open, with an account whose balance no ledger entry explains. -/
def mismatchedStore : Store where
  accounts := [{ pk := 1, user := 1, balance := SEED_AMOUNT }]
  ledgerAccounts := [{ pk := 1, kind := .user, mockAccount := some 1, code := "USER:1" }]
  safety := some {}

/-- The mismatch is found, and the committed state stays open. -/
theorem mismatchedStore_not_reconciled :
    mismatchesOf mismatchedStore = .ok ["account:1"] ∧
      safetyOf (call (handle plainPlatform none "maintainer" "maintainer") (· + 1) 4
        mismatchedStore).2 = {} ∧
      ¬ Reconciles plainPlatform none "maintainer" "maintainer" mismatchedStore
        (call (handle plainPlatform none "maintainer" "maintainer") (· + 1) 4
          mismatchedStore).2 := by
  have hopen : safetyOf (call (handle plainPlatform none "maintainer" "maintainer")
      (· + 1) 4 mismatchedStore).2 = {} := handle_reports rfl
  refine ⟨by decide, hopen, fun h => ?_⟩
  have hblocked := (h.blocks rfl ⟨"account:1", [], by decide⟩).1
  rw [hopen] at hblocked
  exact nomatch hblocked

end Market
