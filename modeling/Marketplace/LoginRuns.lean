import Marketplace.LoginThrottle

/-! # The throttle is a fixed-window counter for every key

    Whatever a call does to the row of one key is a step of the counter of that key: the
    row is pruned when its window and its block are over, created, found blocked, or
    touched by the one attempt of the call.  The bounds of `FixedWindow` follow for the
    addresses and for the accounts. -/

namespace Market

open FixedWindow

variable {hmac lower : String → String} {t t' : ThrottleTable} {k : ThrottleKey}
  {r : LoginThrottle} {x y : LoginCall} {calls pre mid post : List LoginCall} {now τ : Time}

/-! ## Rows as counters -/

def ThrottleScope.policy : ThrottleScope → Policy
  | .account =>
      { window := LOGIN_WINDOW, threshold := ACCOUNT_THRESHOLD, cooldown := ACCOUNT_COOLDOWN,
        window_pos := by decide, threshold_pos := by decide, window_le := by decide }
  | .ip =>
      { window := LOGIN_WINDOW, threshold := IP_THRESHOLD, cooldown := IP_COOLDOWN,
        window_pos := by decide, threshold_pos := by decide, window_le := by decide }

theorem policy_window (scope : ThrottleScope) : scope.policy.window = LOGIN_WINDOW := by
  cases scope <;> rfl

theorem policy_cooldown_le (scope : ThrottleScope) : scope.policy.cooldown ≤ IP_COOLDOWN := by
  cases scope <;> decide

def LoginThrottle.counter (r : LoginThrottle) : Counter :=
  ⟨r.windowStartedAt, r.failureCount, r.blockedUntil⟩

/-- The counter of a key. -/
def ThrottleTable.counter (t : ThrottleTable) (k : ThrottleKey) : Option Counter :=
  (t k).map LoginThrottle.counter

theorem counter_of_row (h : t k = some r) : t.counter k = some r.counter := by
  rw [ThrottleTable.counter, h]
  rfl

theorem isBlocked_iff : isBlocked r now = true ↔ r.counter.blocked now := by
  rw [isBlocked]
  cases h : r.blockedUntil with
  | none =>
      refine ⟨fun hf => absurd hf Bool.false_ne_true, fun ⟨b, hb, _⟩ => ?_⟩
      rw [LoginThrottle.counter, h] at hb
      exact nomatch hb
  | some b =>
      refine ⟨fun hlt => ⟨b, h, of_decide_eq_true hlt⟩, fun ⟨b', hb, hlt⟩ => ?_⟩
      rw [LoginThrottle.counter, h] at hb
      cases hb
      exact decide_eq_true hlt

theorem counter_recordFailure (scope : ThrottleScope) (r : LoginThrottle)
    (now savedAt : Time) :
    (recordFailure r now savedAt scope.policy.threshold scope.policy.cooldown).counter =
      r.counter.fail scope.policy now := by
  have hstarted : r.counter.started = r.windowStartedAt := rfl
  rw [Counter.fail, Counter.current, policy_window, hstarted, recordFailure]
  by_cases hover : r.windowStartedAt + LOGIN_WINDOW ≤ now
  · rw [if_pos hover, if_pos hover]
    have hzero : (Counter.start now).count = 0 := rfl
    rw [hzero]
    by_cases hfull : scope.policy.threshold ≤ 0 + 1
    · rw [if_pos hfull, if_pos hfull]
      rfl
    · rw [if_neg hfull, if_neg hfull]
      rfl
  · rw [if_neg hover, if_neg hover]
    have hcount : r.counter.count = r.failureCount := rfl
    rw [hcount]
    by_cases hfull : scope.policy.threshold ≤ r.failureCount + 1
    · rw [if_pos hfull, if_pos hfull]
      rfl
    · rw [if_neg hfull, if_neg hfull]
      rfl

/-! ## The rows between two calls -/

/-- A row of a window that has started: it was saved since then, and at most a cooldown
    before the end of its block. -/
structure SavedRow (τ : Time) (r : LoginThrottle) : Prop where
  started : r.windowStartedAt ≤ τ
  saved : r.windowStartedAt ≤ r.updatedAt
  block : ∀ b, r.blockedUntil = some b → b ≤ r.updatedAt + IP_COOLDOWN

def SavedRows (τ : Time) (t : ThrottleTable) : Prop := ∀ k r, t k = some r → SavedRow τ r

theorem SavedRow.wait (h : SavedRow τ r) (hle : τ ≤ now) : SavedRow now r :=
  ⟨Nat.le_trans h.started hle, h.saved, h.block⟩

theorem SavedRow.fresh {savedAt : Time} {n : Nat} (hsaved : now ≤ savedAt) :
    SavedRow now ⟨now, n, none, savedAt⟩ :=
  ⟨Nat.le_refl _, hsaved, fun _ h => nomatch h⟩

theorem SavedRows.update (h : SavedRows τ t) (hr : SavedRow τ r) :
    SavedRows τ (Function.update t k (some r)) := by
  intro k' r' hr'
  by_cases hk : k' = k
  · rw [hk, Function.update_self] at hr'
    cases hr'
    exact hr
  · rw [Function.update_of_ne hk] at hr'
    exact h k' r' hr'

theorem SavedRow.recordFailure (h : SavedRow now r) (hopen : ¬ r.counter.blocked now)
    {savedAt : Time} (hsaved : now ≤ savedAt) (scope : ThrottleScope) :
    SavedRow now (recordFailure r now savedAt scope.policy.threshold scope.policy.cooldown) := by
  have hcounter := counter_recordFailure scope r now savedAt
  have hstarted : (r.counter.fail scope.policy now).started ≤ now := by
    rw [Counter.fail, Counter.current]
    split
    · exact Nat.le_refl _
    · exact h.started
  rw [← hcounter] at hstarted
  refine ⟨hstarted, Nat.le_trans hstarted hsaved, fun b hb => ?_⟩
  have hblock : (r.counter.fail scope.policy now).blockedUntil = some b := by
    rw [← hcounter]
    exact hb
  have hupdated : (Market.recordFailure r now savedAt scope.policy.threshold
      scope.policy.cooldown).updatedAt = savedAt := rfl
  rw [hupdated]
  rw [Counter.fail] at hblock
  split at hblock
  · cases hblock
    exact Nat.add_le_add hsaved (policy_cooldown_le scope)
  · -- the block that stays was over
    rw [Counter.current] at hblock
    split at hblock
    · cases hblock
    · have hle : b ≤ now := Nat.le_of_not_lt fun hlt => hopen ⟨b, hblock, hlt⟩
      exact Nat.le_trans (Nat.le_trans hle hsaved) (Nat.le_add_right _ _)

/-! ## The steps of a call -/

/-- Rows appeared, or were forgotten after their windows and blocks. -/
structure QuietStep (now : Time) (t t' : ThrottleTable) : Prop where
  rows : SavedRows now t'
  quiet : ∀ k, Quiet k.scope.policy now (t.counter k) (t'.counter k)

theorem pruneExpiredThrottles_quiet (h : SavedRows now t) :
    QuietStep now t (pruneExpiredThrottles now t) := by
  have hfind : ∀ k, pruneExpiredThrottles now t k =
      (t k).filter fun r => !decide (r.updatedAt + THROTTLE_RETENTION < now) := fun _ => rfl
  refine ⟨fun k r hr => ?_, fun k => ?_⟩
  · rw [hfind, Option.filter_eq_some_iff] at hr
    exact h k r hr.1
  · cases hk : t k with
    | none =>
        have hnone : pruneExpiredThrottles now t k = none := by rw [hfind, hk]; rfl
        rw [ThrottleTable.counter, ThrottleTable.counter, hk, hnone]
        exact .same none
    | some r =>
        by_cases hold : r.updatedAt + THROTTLE_RETENTION < now
        · -- a day after it was saved the window and the block are over
          have hnone : pruneExpiredThrottles now t k = none := by
            rw [hfind, hk, Option.filter_some, decide_eq_true hold]
            rfl
          have hsaved := h k r hk
          have hretained : ∀ d, d ≤ THROTTLE_RETENTION → r.updatedAt + d ≤ now := fun d hd =>
            Nat.le_trans (Nat.add_le_add_left hd _) (Nat.le_of_lt hold)
          rw [counter_of_row hk, ThrottleTable.counter, hnone]
          refine .dropped _ ?_ ?_
          · rw [policy_window]
            exact Nat.le_trans (Nat.add_le_add_right hsaved.saved _) (hretained _ (by decide))
          · rintro ⟨b, hb, hlt⟩
            refine Nat.not_lt.mpr ?_ hlt
            exact Nat.le_trans (hsaved.block b hb) (hretained _ (by decide))
        · have hkept : pruneExpiredThrottles now t k = t k := by
            rw [hfind, hk, Option.filter_some, decide_eq_false hold]
            rfl
          rw [ThrottleTable.counter, ThrottleTable.counter, hkept]
          exact .same _

theorem counter_update (t : ThrottleTable) (k : ThrottleKey) (r : LoginThrottle) :
    ThrottleTable.counter (Function.update t k (some r)) k = some r.counter :=
  counter_of_row (Function.update_self _ _ _)

theorem counter_update_of_ne {k' : ThrottleKey} (h : k' ≠ k) (t : ThrottleTable)
    (r : LoginThrottle) :
    ThrottleTable.counter (Function.update t k (some r)) k' = t.counter k' := by
  rw [ThrottleTable.counter, Function.update_of_ne h]
  rfl

/-- A row that is there is locked as it is. -/
theorem lockedThrottle_found (h : t k = some r) (createdAt : Time) :
    lockedThrottle k now createdAt t = (r, t) := by
  rw [lockedThrottle, h]

/-- A row that is missing is inserted, with a window of its own. -/
theorem lockedThrottle_new (h : t k = none) (createdAt : Time) :
    lockedThrottle k now createdAt t =
      (⟨now, 0, none, createdAt⟩, Function.update t k (some ⟨now, 0, none, createdAt⟩)) := by
  rw [lockedThrottle, h]

/-- What `_locked_throttle` finds or makes; other rows stay. -/
theorem lockedThrottle_quiet (h : SavedRows now t) (k : ThrottleKey) {createdAt : Time}
    (hcreated : now ≤ createdAt) :
    QuietStep now t (lockedThrottle k now createdAt t).2 ∧
      (lockedThrottle k now createdAt t).2 k = some (lockedThrottle k now createdAt t).1 ∧
      ∀ k' r, t k' = some r → (lockedThrottle k now createdAt t).2 k' = some r := by
  cases hk : t k with
  | some r =>
      rw [lockedThrottle_found hk]
      exact ⟨⟨h, fun k' => .same _⟩, hk, fun _ _ hr => hr⟩
  | none =>
      rw [lockedThrottle_new hk]
      refine ⟨⟨h.update (.fresh hcreated), fun k' => ?_⟩, Function.update_self _ _ _,
        fun k' r hr => ?_⟩
      · by_cases hk' : k' = k
        · rw [hk', counter_update, ThrottleTable.counter, hk]
          exact .opened
        · rw [counter_update_of_ne hk']
          exact .same _
      · have hne : k' ≠ k := by
          intro hk'
          rw [hk', hk] at hr
          exact nomatch hr
        show Function.update t k _ k' = some r
        rw [Function.update_of_ne hne]
        exact hr

/-- The attempt that a call is for the counters of a scope. -/
def attemptOf : ThrottleScope → LoginOutcome → Option Attempt
  | _, .blocked => none
  | _, .failed => some .failed
  | _, .refused => some .passed
  | .account, .loggedIn _ => some .cleared
  | .ip, .loggedIn _ => some .passed

/-- What a call adds to the log of a key. -/
def callLog (hmac lower : String → String) (k : ThrottleKey) (e : LoginCall × LoginOutcome) :
    List (Nat × Attempt) :=
  if e.1.key hmac lower k.scope = k then ((attemptOf k.scope e.2).map (e.1.now, ·)).toList
  else []

/-- A blocked call is no attempt. -/
theorem callLog_blocked (k : ThrottleKey) (x : LoginCall) :
    callLog hmac lower k (x, .blocked) = [] := by
  rw [callLog]
  split <;> rfl

/-- The key is one of its scope. -/
theorem key_scope (x : LoginCall) (scope : ThrottleScope) :
    (x.key hmac lower scope).scope = scope := by
  cases scope <;> rfl

/-- The attempt counts for the key of the call, -/
theorem callLog_key (x : LoginCall) (scope : ThrottleScope) (out : LoginOutcome) :
    callLog hmac lower (x.key hmac lower scope) (x, out) =
      ((attemptOf scope out).map (x.now, ·)).toList := by
  rw [callLog, key_scope, if_pos rfl]

/-- and for no other key of the scope. -/
theorem callLog_other {scope : ThrottleScope} (hscope : k.scope = scope) {out : LoginOutcome}
    (hk : k ≠ x.key hmac lower scope) : callLog hmac lower k (x, out) = [] := by
  rw [callLog, hscope, if_neg fun h => hk h.symm]

/-- The runs of all counters. -/
def RunsOf (τ : Time) (t : ThrottleTable) (log : ThrottleKey → List (Nat × Attempt)) (now : Time)
    (t' : ThrottleTable) : Prop :=
  ∀ k, Run k.scope.policy (t.counter k) τ (log k) (t'.counter k) now

/-- A step that attempts nothing leaves the runs as they are. -/
theorem RunsOf.quiet {log : ThrottleKey → List (Nat × Attempt)} {t₀ : ThrottleTable} {τ₀ : Time}
    (h : RunsOf τ₀ t₀ log τ t) (hle : τ ≤ now) (hq : QuietStep now t t') :
    RunsOf τ₀ t₀ log now t' :=
  fun k => .quiet (h k) hle (hq.quiet k)

/-- An account and an address have different keys. -/
theorem accountKey_ne (x y : LoginCall) :
    x.key hmac lower .account ≠ y.key hmac lower .ip := by
  intro h
  exact nomatch congrArg ThrottleKey.scope h

/-- What the evaluation of a password can do. -/
theorem evaluateLogin_cases (hmac lower : String → String) (x : LoginCall)
    (account ip : LoginThrottle) (t : ThrottleTable) :
    evaluateLogin hmac lower x account ip t =
      (.failed, Function.update (Function.update t (x.key hmac lower .account) (some
        (recordFailure account x.now (x.savedAt 2) ACCOUNT_THRESHOLD ACCOUNT_COOLDOWN)))
        (x.key hmac lower .ip)
        (some (recordFailure ip x.now (x.savedAt 3) IP_THRESHOLD IP_COOLDOWN))) ∨
    evaluateLogin hmac lower x account ip t = (.refused, t) ∨
    ∃ user, evaluateLogin hmac lower x account ip t =
      (.loggedIn user, Function.update t (x.key hmac lower .account)
        (some ⟨x.now, 0, none, x.savedAt 2⟩)) := by
  rw [evaluateLogin]
  split
  split
  · exact Or.inl rfl
  · split
    · exact Or.inr (Or.inl rfl)
    · exact Or.inr (Or.inr ⟨_, rfl⟩)

/-- What `evaluateLogin` makes of the counter of a key. -/
theorem evaluateLogin_run {account ip : LoginThrottle} {log : ThrottleKey → List (Nat × Attempt)}
    {t₀ : ThrottleTable} {τ₀ : Time} (h : RunsOf τ₀ t₀ log x.now t)
    (hrows : SavedRows x.now t) (hsaved : ∀ k, x.now ≤ x.savedAt k)
    (haccount : t (x.key hmac lower .account) = some account)
    (hip : t (x.key hmac lower .ip) = some ip)
    (hopenAccount : ¬ account.counter.blocked x.now) (hopenIp : ¬ ip.counter.blocked x.now) :
    let e := evaluateLogin hmac lower x account ip t
    SavedRows x.now e.2 ∧
      RunsOf τ₀ t₀ (fun k => callLog hmac lower k (x, e.1) ++ log k) x.now e.2 := by
  -- an attempt that makes these rows of the two rows
  have key : ∀ (out : LoginOutcome) (a b : Attempt) (account' ip' : LoginThrottle),
      attemptOf .account out = some a → attemptOf .ip out = some b →
      account'.counter = account.counter.after ThrottleScope.account.policy x.now a →
      ip'.counter = ip.counter.after ThrottleScope.ip.policy x.now b →
      ∀ t', ThrottleTable.counter t' (x.key hmac lower .account) = some account'.counter →
      ThrottleTable.counter t' (x.key hmac lower .ip) = some ip'.counter →
      (∀ k, k ≠ x.key hmac lower .account → k ≠ x.key hmac lower .ip →
        ThrottleTable.counter t' k = t.counter k) →
      RunsOf τ₀ t₀ (fun k => callLog hmac lower k (x, out) ++ log k) x.now t' := by
    intro out a b account' ip' ha hb haccount' hip' t' hta hti hother k
    show Run _ _ _ (callLog hmac lower k (x, out) ++ log k) _ _
    by_cases hk : k = x.key hmac lower .account
    · have hlog : callLog hmac lower k (x, out) = [(x.now, a)] := by
        rw [hk, callLog_key, ha]
        rfl
      have hrun := h k
      rw [hlog]
      rw [hk] at hrun ⊢
      rw [counter_of_row haccount] at hrun
      rw [hta, haccount']
      exact .attempt a hrun (Nat.le_refl _) hopenAccount
    · by_cases hk' : k = x.key hmac lower .ip
      · have hlog : callLog hmac lower k (x, out) = [(x.now, b)] := by
          rw [hk', callLog_key, hb]
          rfl
        have hrun := h k
        rw [hlog]
        rw [hk'] at hrun ⊢
        rw [counter_of_row hip] at hrun
        rw [hti, hip']
        exact .attempt b hrun (Nat.le_refl _) hopenIp
      · have hlog : callLog hmac lower k (x, out) = [] := by
          cases hscope : k.scope with
          | account => exact callLog_other hscope hk
          | ip => exact callLog_other hscope hk'
        rw [hlog, hother k hk hk']
        exact h k
  have hne : x.key hmac lower .account ≠ x.key hmac lower .ip := accountKey_ne x x
  rcases evaluateLogin_cases hmac lower x account ip t with
    he | he | ⟨user, he⟩
  all_goals rw [he]
  · -- wrong password: both rows count it
    refine ⟨(hrows.update ((hrows _ _ haccount).recordFailure hopenAccount (hsaved 2)
      .account)).update ((hrows _ _ hip).recordFailure hopenIp (hsaved 3) .ip), ?_⟩
    refine key .failed .failed .failed _ _ rfl rfl
      (counter_recordFailure .account account x.now (x.savedAt 2))
      (counter_recordFailure .ip ip x.now (x.savedAt 3)) _ ?_ (counter_update _ _ _) ?_
    · rw [counter_update_of_ne hne]
      exact counter_update _ _ _
    · intro k hk hk'
      rw [counter_update_of_ne hk', counter_update_of_ne hk]
  · -- an account that may not log in: no row is touched
    exact ⟨hrows, key .refused .passed .passed account ip rfl rfl rfl rfl t
      (counter_of_row haccount) (counter_of_row hip) fun _ _ _ => rfl⟩
  · -- success clears the row of the account, and leaves that of the address
    refine ⟨hrows.update (.fresh (hsaved 2)), ?_⟩
    refine key (.loggedIn user) .cleared .passed ⟨x.now, 0, none, x.savedAt 2⟩ ip rfl rfl rfl
      rfl _ (counter_update _ _ _) ?_ ?_
    · rw [counter_update_of_ne hne.symm]
      exact counter_of_row hip
    · intro k hk _
      exact counter_update_of_ne hk _ _

/-- The row of the address, and the table with it. -/
def ipRow (hmac lower : String → String) (x : LoginCall) (t : ThrottleTable) :
    LoginThrottle × ThrottleTable :=
  lockedThrottle (x.key hmac lower .ip) x.now (x.savedAt 0) (pruneExpiredThrottles x.now t)

/-- The row of the account, and the table with both. -/
def accountRow (hmac lower : String → String) (x : LoginCall) (t : ThrottleTable) :
    LoginThrottle × ThrottleTable :=
  lockedThrottle (x.key hmac lower .account) x.now (x.savedAt 1) (ipRow hmac lower x t).2

/-- The address is asked first, then the account, then the password. -/
theorem authenticateLogin_eq (x : LoginCall) (t : ThrottleTable) :
    authenticateLogin hmac lower x t =
      if isBlocked (ipRow hmac lower x t).1 x.now then (.blocked, (ipRow hmac lower x t).2)
      else if isBlocked (accountRow hmac lower x t).1 x.now then
        (.blocked, (accountRow hmac lower x t).2)
      else evaluateLogin hmac lower x (accountRow hmac lower x t).1 (ipRow hmac lower x t).1
        (accountRow hmac lower x t).2 := rfl

/-- **CALL**: a call is a run of every counter, with its one attempt in the log. -/
theorem authenticateLogin_run (hmac lower : String → String)
    {log : ThrottleKey → List (Nat × Attempt)} {t₀ : ThrottleTable}
    {τ₀ : Time} (h : RunsOf τ₀ t₀ log τ t) (hrows : SavedRows τ t) (hle : τ ≤ x.now)
    (hsaved : ∀ k, x.now ≤ x.savedAt k) :
    let e := authenticateLogin hmac lower x t
    SavedRows x.now e.2 ∧
      RunsOf τ₀ t₀ (fun k => callLog hmac lower k (x, e.1) ++ log k) x.now e.2 := by
  have hprune := pruneExpiredThrottles_quiet fun k r hr => (hrows k r hr).wait hle
  have h1 := h.quiet hle hprune
  obtain ⟨hlock, hip, -⟩ :=
    lockedThrottle_quiet hprune.rows (x.key hmac lower .ip) (hsaved 0)
  have h2 := h1.quiet (Nat.le_refl _) hlock
  have blocked : ∀ t', SavedRows x.now t' → RunsOf τ₀ t₀ log x.now t' → SavedRows x.now t' ∧
      RunsOf τ₀ t₀ (fun k => callLog hmac lower k (x, .blocked) ++ log k) x.now t' := by
    intro t' hrows' hruns
    refine ⟨hrows', fun k => ?_⟩
    show Run _ _ _ (callLog hmac lower k (x, .blocked) ++ log k) _ _
    rw [callLog_blocked]
    exact hruns k
  rw [authenticateLogin_eq]
  by_cases hopen : isBlocked (ipRow hmac lower x t).1 x.now = true
  · rw [if_pos hopen]
    exact blocked _ hlock.rows h2
  · rw [if_neg hopen]
    obtain ⟨hlock', haccount, hkept⟩ :=
      lockedThrottle_quiet hlock.rows (x.key hmac lower .account) (hsaved 1)
    have h3 := h2.quiet (Nat.le_refl _) hlock'
    by_cases hopen' : isBlocked (accountRow hmac lower x t).1 x.now = true
    · rw [if_pos hopen']
      exact blocked _ hlock'.rows h3
    · rw [if_neg hopen']
      exact evaluateLogin_run h3 hlock'.rows hsaved haccount (hkept _ _ hip)
        (fun hb => hopen' (isBlocked_iff.mpr hb)) fun hb => hopen (isBlocked_iff.mpr hb)

/-! ## Calls one after the other -/

/-- One list of calls after another. -/
theorem tableAfter_append (t : ThrottleTable) (pre post : List LoginCall) :
    tableAfter hmac lower t (pre ++ post) =
      tableAfter hmac lower (tableAfter hmac lower t pre) post := List.foldl_append

theorem logins_append (t : ThrottleTable) (pre post : List LoginCall) :
    logins hmac lower t (pre ++ post) =
      logins hmac lower t pre ++ logins hmac lower (tableAfter hmac lower t pre) post := by
  induction pre generalizing t with
  | nil => rfl
  | cons x pre ih => exact congrArg (_ :: ·) (ih _)

/-- The attempts on a key, the latest one first. -/
def throttleLog (hmac lower : String → String) (k : ThrottleKey)
    (entries : List (LoginCall × LoginOutcome)) : List (Nat × Attempt) :=
  entries.reverse.flatMap (callLog hmac lower k)

/-- The log of a list of outcomes, latest first. -/
theorem throttleLog_cons (k : ThrottleKey) (e : LoginCall × LoginOutcome)
    (entries : List (LoginCall × LoginOutcome)) :
    throttleLog hmac lower k (e :: entries) =
      throttleLog hmac lower k entries ++ callLog hmac lower k e := by
  rw [throttleLog, List.reverse_cons, List.flatMap_append, List.flatMap_singleton]
  rfl

theorem throttleLog_append (k : ThrottleKey) (e e' : List (LoginCall × LoginOutcome)) :
    throttleLog hmac lower k (e ++ e') =
      throttleLog hmac lower k e' ++ throttleLog hmac lower k e := by
  rw [throttleLog, List.reverse_append, List.flatMap_append]
  rfl

theorem Serial.tail (h : Serial (x :: calls)) : Serial calls :=
  ⟨(List.pairwise_cons.mp h.ordered).2, fun y hy => h.saved y (List.mem_cons_of_mem _ hy)⟩

/-- The parts of a serial list are serial, and the first is before the second. -/
theorem Serial.append (h : Serial (pre ++ post)) :
    Serial pre ∧ Serial post ∧ ∀ x ∈ pre, ∀ y ∈ post, x.now ≤ y.now := by
  obtain ⟨hpre, hpost, hcross⟩ := List.pairwise_append.mp h.ordered
  exact ⟨⟨hpre, fun x hx => h.saved x (List.mem_append_left _ hx)⟩,
    ⟨hpost, fun x hx => h.saved x (List.mem_append_right _ hx)⟩, hcross⟩

/-- **CALLS**: the calls are a run of every counter. -/
theorem logins_run (hmac lower : String → String) (log : ThrottleKey → List (Nat × Attempt))
    {t₀ : ThrottleTable} {τ₀ : Time} (hserial : Serial calls)
    (hruns : RunsOf τ₀ t₀ log τ t) (hrows : SavedRows τ t)
    (hfrom : ∀ x ∈ calls, τ ≤ x.now) (hle : τ ≤ now) (hto : ∀ x ∈ calls, x.now ≤ now) :
    SavedRows now (tableAfter hmac lower t calls) ∧
      RunsOf τ₀ t₀ (fun k => throttleLog hmac lower k (logins hmac lower t calls) ++ log k) now
        (tableAfter hmac lower t calls) := by
  induction calls generalizing t τ log with
  | nil => exact ⟨fun k r hr => (hrows k r hr).wait hle, fun k => (hruns k).wait hle⟩
  | cons x calls ih =>
      obtain ⟨hrows', hruns'⟩ := authenticateLogin_run hmac lower hruns hrows
        (hfrom x List.mem_cons_self) (hserial.saved x List.mem_cons_self)
      obtain ⟨hrows'', hruns''⟩ := ih _ hserial.tail hruns' hrows'
        (List.pairwise_cons.mp hserial.ordered).1 (hto x List.mem_cons_self)
        fun y hy => hto y (List.mem_cons_of_mem _ hy)
      refine ⟨hrows'', fun k => ?_⟩
      have hrun : Run _ _ _ (throttleLog hmac lower k _ ++ (callLog hmac lower k _ ++ log k)) _ _ :=
        hruns'' k
      rw [← List.append_assoc, ← throttleLog_cons] at hrun
      exact hrun

/-- Nobody has tried to log in. -/
def noThrottles : ThrottleTable := fun _ => none

/-- Where there are no rows all of them are saved. -/
theorem savedRows_none (τ : Time) : SavedRows τ noThrottles := fun _ _ h => nomatch h

/-- The calls from the first one on. -/
theorem logins_start (hmac lower : String → String) (hserial : Serial calls)
    (hto : ∀ x ∈ calls, x.now ≤ now) :
    SavedRows now (tableAfter hmac lower noThrottles calls) ∧
      RunsOf 0 noThrottles
        (fun k => throttleLog hmac lower k (logins hmac lower noThrottles calls)) now
        (tableAfter hmac lower noThrottles calls) := by
  obtain ⟨hrows, hruns⟩ := logins_run hmac lower (fun _ => []) hserial (fun _ => .refl)
    (savedRows_none 0) (fun _ _ => Nat.zero_le _) (Nat.zero_le _) hto
  refine ⟨hrows, fun k => ?_⟩
  have hrun : Run _ _ _ (throttleLog hmac lower k _ ++ []) _ _ := hruns k
  rw [List.append_nil] at hrun
  exact hrun

/-- The calls after others. -/
theorem logins_after (hmac lower : String → String) (hserial : Serial (pre ++ x :: mid))
    (hto : ∀ y ∈ x :: mid, y.now ≤ now)
    (k : ThrottleKey) :
    (∀ c, ThrottleTable.counter (tableAfter hmac lower noThrottles pre) k = some c →
      Sound k.scope.policy x.now c) ∧
    Run k.scope.policy (ThrottleTable.counter (tableAfter hmac lower noThrottles pre) k) x.now
      (throttleLog hmac lower k
        (logins hmac lower (tableAfter hmac lower noThrottles pre) (x :: mid)))
      (ThrottleTable.counter (tableAfter hmac lower noThrottles (pre ++ x :: mid)) k) now := by
  obtain ⟨hpre, hmid, hcross⟩ := hserial.append
  obtain ⟨hrows, hruns⟩ := logins_start hmac lower hpre
    fun y hy => hcross y hy x List.mem_cons_self
  refine ⟨(hruns k).sound fun _ h => (nomatch h), ?_⟩
  have hfrom : ∀ y ∈ x :: mid, x.now ≤ y.now := by
    intro y hy
    rcases List.mem_cons.mp hy with rfl | hy
    · exact Nat.le_refl _
    · exact (List.pairwise_cons.mp hmid.ordered).1 y hy
  obtain ⟨-, hruns'⟩ := logins_run hmac lower (fun _ => []) hmid
    (fun _ => .refl) hrows hfrom (hto x List.mem_cons_self) hto
  have hrun : Run _ _ _ (throttleLog hmac lower k _ ++ []) _ _ := hruns' k
  rw [List.append_nil, ← tableAfter_append] at hrun
  exact hrun

/-! ## What is counted -/

/-- How a call ends after others. -/
def outcomeAfter (hmac lower : String → String) (pre : List LoginCall) (x : LoginCall) :
    LoginOutcome :=
  (authenticateLogin hmac lower x (tableAfter hmac lower noThrottles pre)).1

/-- The failures in the window of a key, since its last login: what was evaluated from
    the start of the window on and failed. -/
def recordedFailures (hmac lower : String → String) (k : ThrottleKey)
    (calls : List LoginCall) : Nat :=
  match tableAfter hmac lower noThrottles calls k with
  | none => 0
  | some r => windowFailures r.windowStartedAt
      (throttleLog hmac lower k (logins hmac lower noThrottles calls))

/-- Some time is after all of the calls. -/
theorem exists_later (calls : List LoginCall) : ∃ now, ∀ x ∈ calls, x.now ≤ now := by
  induction calls with
  | nil => exact ⟨0, fun _ h => absurd h List.not_mem_nil⟩
  | cons x calls ih =>
      obtain ⟨now, hnow⟩ := ih
      refine ⟨max x.now now, fun y hy => ?_⟩
      rcases List.mem_cons.mp hy with rfl | hy
      · exact Nat.le_max_left _ _
      · exact Nat.le_trans (hnow y hy) (Nat.le_max_right _ _)

/-- **COUNT**: `failure_count` is the number of failures in the window. -/
theorem recordedFailures_eq (hserial : Serial calls)
    (hr : tableAfter hmac lower noThrottles calls k = some r) :
    recordedFailures hmac lower k calls = r.failureCount := by
  obtain ⟨now, hto⟩ := exists_later calls
  obtain ⟨-, hruns⟩ := logins_start hmac lower hserial hto
  have hcounted := (hruns k).counted
  rw [counter_of_row hr] at hcounted
  rw [recordedFailures, hr]
  exact hcounted.2

/-- The evaluation of a password of a target in `[start, start + 15min)` failed. -/
def failedIn (target : LoginCall → Bool) (start : Time) (e : LoginCall × LoginOutcome) : Bool :=
  e.2.isFailed && target e.1 &&
    (decide (start ≤ e.1.now) && decide (e.1.now < start + LOGIN_WINDOW))

/-- A failure in the window that begins at a time. -/
theorem failedIn_iff {target : LoginCall → Bool} {start : Time}
    {e : LoginCall × LoginOutcome} : failedIn target start e = true ↔
      e.2 = .failed ∧ target e.1 = true ∧ start ≤ e.1.now ∧ e.1.now < start + LOGIN_WINDOW := by
  have hout : e.2.isFailed = true ↔ e.2 = .failed := by
    cases e.2 <;> simp [LoginOutcome.isFailed]
  rw [failedIn, Bool.and_eq_true, Bool.and_eq_true, Bool.and_eq_true, decide_eq_true_iff,
    decide_eq_true_iff, hout, and_assoc]

/-- Failures of a target are failures of its key. -/
theorem countP_failedIn_le {target : LoginCall → Bool}
    {entries : List (LoginCall × LoginOutcome)}
    (hkey : ∀ e ∈ entries, target e.1 = true → e.1.key hmac lower k.scope = k) (start : Time) :
    entries.countP (failedIn target start) ≤
      failuresIn k.scope.policy start (throttleLog hmac lower k entries) := by
  induction entries with
  | nil => exact Nat.zero_le _
  | cons e entries ih =>
      have hrest := ih fun e' he' => hkey e' (List.mem_cons_of_mem _ he')
      rw [throttleLog_cons, failuresIn, List.countP_append]
      by_cases hin : failedIn target start e = true
      · obtain ⟨hout, htarget, hstart, hend⟩ := failedIn_iff.mp hin
        have hlog : callLog hmac lower k e = [(e.1.now, .failed)] := by
          rw [callLog, hkey e List.mem_cons_self htarget, if_pos rfl, hout]
          rfl
        rw [List.countP_cons_of_pos hin, hlog]
        refine Nat.add_le_add hrest (Nat.le_of_eq (Eq.symm ?_))
        rw [List.countP_singleton, policy_window, decide_eq_true hstart, decide_eq_true hend]
        rfl
      · rw [List.countP_cons_of_neg hin]
        exact Nat.le_trans hrest (Nat.le_add_right _ _)

/-! ## Blocks -/

/-- A failed evaluation is a failure of both counters. -/
theorem counter_failed (h : (authenticateLogin hmac lower x t).1 = .failed)
    (scope : ThrottleScope) :
    ∃ c : Counter, (authenticateLogin hmac lower x t).2.counter (x.key hmac lower scope) =
      some (c.fail scope.policy x.now) := by
  have hne : x.key hmac lower .account ≠ x.key hmac lower .ip := accountKey_ne x x
  rw [authenticateLogin_eq] at h ⊢
  split at h
  · exact nomatch h
  · next hip =>
      split at h
      · exact nomatch h
      · next haccount =>
          rw [if_neg hip, if_neg haccount]
          rcases evaluateLogin_cases hmac lower x
            (accountRow hmac lower x t).1 (ipRow hmac lower x t).1
            (accountRow hmac lower x t).2 with he | he | ⟨user, he⟩
          all_goals rw [he] at h ⊢
          · cases scope with
            | ip =>
                refine ⟨(ipRow hmac lower x t).1.counter, ?_⟩
                rw [counter_update]
                exact congrArg some (counter_recordFailure .ip _ _ _)
            | account =>
                refine ⟨(accountRow hmac lower x t).1.counter, ?_⟩
                rw [counter_update_of_ne hne, counter_update]
                exact congrArg some (counter_recordFailure .account _ _ _)
          · exact nomatch h
          · exact nomatch h

/-- Only a blocked call is no attempt. -/
theorem attemptOf_eq_none (scope : ThrottleScope) {out : LoginOutcome}
    (h : attemptOf scope out = none) : out = .blocked := by
  cases out with
  | blocked => rfl
  | failed => exact nomatch h
  | refused => exact nomatch h
  | loggedIn user => cases scope <;> exact nomatch h

/-- **THRESHOLD**: the failure that fills the window keeps passwords from being looked at
    for the cooldown. -/
theorem blocked_after_threshold (scope : ThrottleScope)
    (hserial : Serial (pre ++ x :: mid ++ [y]))
    (hfailed : outcomeAfter hmac lower pre x = .failed)
    (hfull : scope.policy.threshold ≤
      recordedFailures hmac lower (x.key hmac lower scope) (pre ++ [x]))
    (hkey : y.key hmac lower scope = x.key hmac lower scope)
    (hlt : y.now < x.now + scope.policy.cooldown) :
    outcomeAfter hmac lower (pre ++ x :: mid) y = .blocked := by
  have hsplit : pre ++ x :: mid = (pre ++ [x]) ++ mid := by
    rw [List.append_assoc]
    rfl
  rw [hsplit] at hserial ⊢
  -- the row of the key after the failure
  obtain ⟨c, hc⟩ := counter_failed hfailed scope
  have hafter : tableAfter hmac lower noThrottles (pre ++ [x]) =
      (authenticateLogin hmac lower x (tableAfter hmac lower noThrottles pre)).2 := by
    rw [tableAfter_append]
    rfl
  rw [← hafter] at hc
  obtain ⟨r, hr, hcounter⟩ := Option.map_eq_some_iff.mp hc
  rw [recordedFailures_eq (List.append_assoc _ _ _ ▸ hserial).append.1 hr] at hfull
  have hblock : (c.fail scope.policy x.now).blockedUntil =
      some (x.now + scope.policy.cooldown) := by
    refine Counter.fail_blocks ?_
    rw [← hcounter]
    exact hfull
  -- nothing gets past it until the other call
  rw [List.append_assoc] at hserial
  have hto : ∀ z ∈ mid ++ [y], z.now ≤ y.now := by
    intro z hz
    rcases List.mem_append.mp hz with hz | hz
    · exact hserial.append.2.1.append.2.2 z hz y List.mem_cons_self
    · rw [List.mem_singleton.mp hz]
  obtain ⟨first, rest, hfirst⟩ : ∃ first rest, mid ++ [y] = first :: rest := by
    cases mid with
    | nil => exact ⟨y, [], rfl⟩
    | cons z mid => exact ⟨z, mid ++ [y], rfl⟩
  rw [hfirst] at hserial hto
  obtain ⟨-, hrun⟩ := logins_after hmac lower hserial hto
    (x.key hmac lower scope)
  rw [hc, ← hfirst] at hrun
  obtain ⟨hlog, -⟩ := hrun.blocked hblock hlt
  rw [logins_append, ← tableAfter_append, throttleLog_append, logins, throttleLog_cons] at hlog
  have hcall : callLog hmac lower (x.key hmac lower scope)
      (y, outcomeAfter hmac lower ((pre ++ [x]) ++ mid) y) = [] :=
    (List.append_eq_nil_iff.mp (List.append_eq_nil_iff.mp hlog).1).2
  rw [← hkey, callLog_key] at hcall
  refine attemptOf_eq_none scope ?_
  cases h : attemptOf scope (outcomeAfter hmac lower ((pre ++ [x]) ++ mid) y) with
  | none => rfl
  | some a =>
      rw [h] at hcall
      exact nomatch hcall

/-- **BLOCK**: a block stays until its time. -/
theorem block_stays {b : Time} (hserial : Serial (pre ++ mid))
    (hr : tableAfter hmac lower noThrottles pre k = some r) (hb : r.blockedUntil = some b)
    (hlt : ∀ z ∈ mid, z.now < b) :
    ∃ r', tableAfter hmac lower noThrottles (pre ++ mid) k = some r' ∧
      r'.blockedUntil = some b := by
  cases mid with
  | nil =>
      rw [List.append_nil]
      exact ⟨r, hr, hb⟩
  | cons x mid =>
      have hpos : 0 < b := Nat.zero_lt_of_lt (hlt x List.mem_cons_self)
      obtain ⟨-, hrun⟩ := logins_after hmac lower hserial
        (fun z hz => Nat.le_pred_of_lt (hlt z hz)) k
      rw [counter_of_row hr] at hrun
      obtain ⟨-, hsame⟩ := hrun.blocked hb (Nat.pred_lt_of_lt hpos)
      obtain ⟨r', hr', hcounter⟩ := Option.map_eq_some_iff.mp hsame
      refine ⟨r', hr', ?_⟩
      have hblocked : r'.counter.blockedUntil = r.counter.blockedUntil := by rw [hcounter]
      rw [← hb]
      exact hblocked

/-! ## Bounds -/

/-- An attempt in the log of a key is one of a call with the key. -/
theorem mem_callLog {e : LoginCall × LoginOutcome} {a : Nat × Attempt}
    (h : a ∈ callLog hmac lower k e) :
    e.1.key hmac lower k.scope = k ∧ a.1 = e.1.now ∧ attemptOf k.scope e.2 = some a.2 := by
  rw [callLog] at h
  split at h
  · next hk =>
      obtain ⟨b, hb, rfl⟩ := Option.map_eq_some_iff.mp (Option.mem_toList.mp h)
      exact ⟨hk, rfl, hb⟩
  · exact absurd h List.not_mem_nil

/-- The log of a list is that of its calls. -/
theorem mem_throttleLog {entries : List (LoginCall × LoginOutcome)} {a : Nat × Attempt}
    (h : a ∈ throttleLog hmac lower k entries) : ∃ e ∈ entries, a ∈ callLog hmac lower k e := by
  obtain ⟨e, he, ha⟩ := List.mem_flatMap.mp h
  exact ⟨e, List.mem_reverse.mp he, ha⟩

/-- The outcomes are of the calls. -/
theorem mem_logins {t : ThrottleTable} {e : LoginCall × LoginOutcome}
    (h : e ∈ logins hmac lower t calls) : e.1 ∈ calls := by
  induction calls generalizing t with
  | nil => exact absurd h List.not_mem_nil
  | cons x calls ih =>
      rcases List.mem_cons.mp h with rfl | h
      · exact List.mem_cons_self
      · exact List.mem_cons_of_mem _ (ih h)

/-- Only a login clears a counter, and only that of its account. -/
theorem attemptOf_cleared {scope : ThrottleScope} {out : LoginOutcome}
    (h : attemptOf scope out = some .cleared) : scope = .account ∧ out.isLoggedIn = true := by
  cases out with
  | blocked => exact nomatch h
  | failed => exact nomatch h
  | refused => exact nomatch h
  | loggedIn user =>
      cases scope with
      | account => exact ⟨rfl, rfl⟩
      | ip => exact nomatch h

/-- **ADDRESSES**: at most 39 failures from an address in any 15 minutes. -/
theorem failures_of_address (hserial : Serial calls) (address : String) (start : Time) :
    (logins hmac lower noThrottles calls).countP (failedIn (·.address == address) start) ≤
      39 := by
  obtain ⟨now, hto⟩ := exists_later calls
  obtain ⟨-, hruns⟩ := logins_start hmac lower hserial hto
  have hbound := (hruns ⟨.ip, clientIpIdentifier hmac address⟩).failuresIn_lt
    (fun _ h => nomatch h) start fun a ha _ _ hcleared => by
      obtain ⟨e, -, ha⟩ := mem_throttleLog ha
      obtain ⟨-, -, hattempt⟩ := mem_callLog ha
      rw [hcleared] at hattempt
      exact nomatch (attemptOf_cleared hattempt).1
  refine Nat.le_trans (countP_failedIn_le (fun e _ he => ?_) start) (Nat.le_of_lt_succ hbound)
  show ThrottleKey.mk .ip (clientIpIdentifier hmac e.1.address) = _
  rw [beq_iff_eq.mp he]

/-- **ACCOUNTS**: at most 9 failures of an account in calls without a login to it. -/
theorem failures_of_account (hserial : Serial (pre ++ mid)) (digest : String) (start : Time)
    (hfailing : ∀ e ∈ logins hmac lower (tableAfter hmac lower noThrottles pre) mid,
      accountLoginIdentifier hmac lower e.1.username = digest → e.2.isLoggedIn = false) :
    (logins hmac lower (tableAfter hmac lower noThrottles pre) mid).countP
      (failedIn (fun x => accountLoginIdentifier hmac lower x.username == digest) start) ≤ 9 := by
  cases mid with
  | nil => exact Nat.zero_le _
  | cons x mid =>
      obtain ⟨now, hto⟩ := exists_later (x :: mid)
      obtain ⟨hsound, hrun⟩ := logins_after hmac lower hserial hto
        ⟨.account, digest⟩
      have hbound := hrun.failuresIn_lt hsound start fun a ha _ _ hcleared => by
        obtain ⟨e, he, ha⟩ := mem_throttleLog ha
        obtain ⟨hk, -, hattempt⟩ := mem_callLog ha
        rw [hcleared] at hattempt
        have hdigest : accountLoginIdentifier hmac lower e.1.username = digest :=
          congrArg ThrottleKey.identifierDigest hk
        have hlogged := (attemptOf_cleared hattempt).2
        rw [hfailing e he hdigest] at hlogged
        exact nomatch hlogged
      refine Nat.le_trans (countP_failedIn_le (fun e _ he => ?_) start)
        (Nat.le_of_lt_succ hbound)
      show ThrottleKey.mk .account (accountLoginIdentifier hmac lower e.1.username) = _
      rw [beq_iff_eq.mp he]

/-- What is accepted is the canonical form. -/
theorem canonicalizeUsername_ok {u c : String} (h : canonicalizeUsername lower u = .ok c) :
    canonicalForm lower u = c := by
  rw [canonicalizeUsername] at h
  split at h
  · exact Except.ok.inj h
  · exact nomatch h

/-- **LOGIN THROTTLING**: in every sequence of calls one after the other, the failure that
    fills the window of an address keeps passwords from being looked at for it for half an
    hour, and that of an account for a quarter of an hour; no quarter of an hour has more
    than 39 failures from an address, and none more than 9 of an account unless somebody
    logs in to it; a block stays until its time; and all spellings of a username share
    one counter. -/
theorem login_throttled (hmac lower : String → String) {calls : List LoginCall}
    (hserial : Serial calls) :
    (∀ pre x mid y post, calls = pre ++ x :: mid ++ y :: post →
      outcomeAfter hmac lower pre x = .failed →
      (20 ≤ recordedFailures hmac lower ⟨.ip, clientIpIdentifier hmac x.address⟩ (pre ++ [x]) →
        y.address = x.address → y.now < x.now + seconds (30 * 60) →
        outcomeAfter hmac lower (pre ++ x :: mid) y = .blocked) ∧
      (5 ≤ recordedFailures hmac lower
          ⟨.account, accountLoginIdentifier hmac lower x.username⟩ (pre ++ [x]) →
        canonicalForm lower y.username = canonicalForm lower x.username →
        y.now < x.now + seconds (15 * 60) →
        outcomeAfter hmac lower (pre ++ x :: mid) y = .blocked)) ∧
    (∀ address start, (logins hmac lower noThrottles calls).countP
      (failedIn (·.address == address) start) ≤ 39) ∧
    (∀ pre mid post name start, calls = pre ++ mid ++ post →
      (∀ x ∈ mid, accountLoginIdentifier hmac lower x.username =
        opaqueIdentifier hmac .account name → canonicalForm lower x.username = name) →
      (∀ e ∈ logins hmac lower (tableAfter hmac lower noThrottles pre) mid,
        canonicalForm lower e.1.username = name → e.2.isLoggedIn = false) →
      (logins hmac lower (tableAfter hmac lower noThrottles pre) mid).countP
        (failedIn (fun x => canonicalForm lower x.username == name) start) ≤ 9) ∧
    (∀ pre mid post k r b, calls = pre ++ mid ++ post →
      tableAfter hmac lower noThrottles pre k = some r → r.blockedUntil = some b →
      (∀ z ∈ mid, z.now < b) →
      ∃ r', tableAfter hmac lower noThrottles (pre ++ mid) k = some r' ∧
        r'.blockedUntil = some b) ∧
    ∀ u v c, canonicalizeUsername lower u = .ok c → canonicalizeUsername lower v = .ok c →
      accountLoginIdentifier hmac lower u = accountLoginIdentifier hmac lower v := by
  refine ⟨?_, failures_of_address hserial, ?_, ?_, ?_⟩
  · intro pre x mid y post hcalls hfailed
    rw [hcalls] at hserial
    -- mid ++ [y]) := by :: what follows the blocked call does not matter to it
    have hbetween : Serial (pre ++ x :: mid ++ [y]) := by
      have hsplit : pre ++ x :: mid ++ y :: post = (pre ++ x :: mid ++ [y]) ++ post := by
        rw [List.append_assoc _ [y]]
        rfl
      rw [hsplit] at hserial
      exact hserial.append.1
    refine ⟨fun hfull haddress hlt => ?_, fun hfull hname hlt => ?_⟩
    · refine blocked_after_threshold .ip hbetween hfailed hfull ?_ hlt
      rw [LoginCall.key, LoginCall.key, haddress]
    · refine blocked_after_threshold .account hbetween hfailed hfull ?_ hlt
      rw [LoginCall.key, LoginCall.key, accountLoginIdentifier, accountLoginIdentifier, hname]
  · intro pre mid post name start hcalls hcollision hfailing
    rw [hcalls] at hserial
    have hbound := failures_of_account hserial.append.1 (opaqueIdentifier hmac .account name) start
      fun e he hdigest => hfailing e he (hcollision e.1 (mem_logins he) hdigest)
    refine Nat.le_trans (List.countP_mono_left fun e he hin => ?_) hbound
    obtain ⟨hout, hname, htime⟩ := failedIn_iff.mp hin
    refine failedIn_iff.mpr ⟨hout, ?_, htime⟩
    rw [accountLoginIdentifier, beq_iff_eq.mp hname]
    exact beq_self_eq_true _
  · intro pre mid post k r b hcalls hr hb hlt
    rw [hcalls] at hserial
    exact block_stays hserial.append.1 hr hb hlt
  · intro u v c hu hv
    rw [accountLoginIdentifier, accountLoginIdentifier, canonicalizeUsername_ok hu,
      canonicalizeUsername_ok hv]

/-- `str.lower` of a text of ASCII characters. -/
def lowerAscii (text : String) : String := String.ofList (text.toList.map Char.toLower)

example : canonicalizeUsername lowerAscii " Seller_Two" = .ok "seller_two" := by decide +kernel

/-- Somebody tries wrong passwords for two accounts from one address, one a minute. -/
def wrongPasswords (n : Nat) : List LoginCall :=
  (List.range n).map fun i =>
    { now := seconds (60 * i), address := "192.0.2.1",
      username := if i % 2 = 0 then "seller_one" else " Seller_Two",
      password := "not the password", authenticate := fun _ _ => none,
      userStatus := fun _ => .active, savedAt := fun _ => seconds (60 * i) }

theorem wrongPasswords_serial (n : Nat) : Serial (wrongPasswords n) where
  ordered := by
    refine List.pairwise_map.mpr (List.pairwise_lt_range.imp fun {a b} hlt => ?_)
    show seconds (60 * a) ≤ seconds (60 * b)
    exact Nat.mul_le_mul_right _ (Nat.mul_le_mul_left _ (Nat.le_of_lt hlt))
  saved := by
    intro x hx k
    obtain ⟨i, -, rfl⟩ := List.mem_map.mp hx
    exact Nat.le_refl _

/-- Ten attempts block both accounts, and the eleventh is not looked at. -/
theorem eleventh_attempt_blocked :
    ((logins id lowerAscii noThrottles (wrongPasswords 11)).map (·.2.isBlocked) =
      List.replicate 10 false ++ [true]) ∧
    (logins id lowerAscii noThrottles (wrongPasswords 11)).countP
      (failedIn (·.address == "192.0.2.1") 0) ≤ 39 :=
  ⟨by decide +kernel, (login_throttled id lowerAscii (wrongPasswords_serial 11)).2.1 _ _⟩

end Market
