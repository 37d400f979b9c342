import Marketplace.CallRules
import Marketplace.ChatRuns

/-! # The time to wait is exact

    A full window holds exactly as many messages as its limit, since the windows of a
    sender are bounded, and the first of them is the oldest.  Until that one leaves, the
    window stays full; from then on it is not, as long as no message is accepted.  The
    time to wait is the longest of these times, in whole seconds. -/

namespace Market

open TxnProgram TxnRuns

variable {ids : Nat → Nat} {s s' : Store} {now start t : Time} {sender : Nat}
  {connectionId : Uuid} {q : ChatMessage → Bool} {limit window : Nat}

/-! ## What the checks compute -/

/-- A check of `_enforce_rate_limits`: which messages, how many, in how many seconds. -/
abbrev RateCheck := (ChatMessage → Bool) × Nat × Nat

/-- What one check waits for. -/
def waitOf (now : Time) (s : Store) (check : RateCheck) : Nat :=
  windowRetryAfter check.2.1 check.2.2 now
    (windowTimestamps check.1 check.2.1 check.2.2 now s)

/-- The `retry_after` of the loop over the checks. -/
def waitOfAll (now : Time) (s : Store) : List RateCheck → Nat → Nat
  | [], longest => longest
  | check :: rest, longest => waitOfAll now s rest (max longest (waitOf now s check))

/-- The loop over the checks ends with the longest wait. -/
theorem ends_retryAfter {d : Store → Store → Option Exn} {clock : Time} :
    ∀ (checks : List RateCheck) (longest : Nat),
      Ends d (retryAfter now checks longest) ids s clock start
        (.ok (waitOfAll now s checks longest)) ids id
  | [], _ => ends_return _
  | (_, _, _) :: rest, _ => Ends.look (ends_fetch _) (ends_retryAfter rest _)

/-- What `_enforce_rate_limits` answers at `now`. -/
def rateAnswer (sender : Nat) (connectionId : Uuid) (now : Time) (s : Store) :
    Except Exn Unit :=
  let longest := waitOfAll now s (rateChecks sender connectionId) 0
  if longest = 0 then .ok () else .error (.chatRateLimited (max 1 longest))

/-- Alone, the check answers by the longest wait and changes nothing. -/
theorem call_enforceRateLimits :
    call (atomic (enforceRateLimits sender connectionId now)) ids now s =
      (rateAnswer sender connectionId now s, s) := by
  have hloop : Ends validateBalancedJournal (retryAfter now (rateChecks sender connectionId) 0)
      ids s now now (.ok (waitOfAll now s (rateChecks sender connectionId) 0)) ids id :=
    ends_retryAfter _ 0
  rw [rateAnswer]
  by_cases hzero : waitOfAll now s (rateChecks sender connectionId) 0 = 0
  · rw [if_pos hzero]
    refine call_look (Ends.look hloop (?_ : Ends _ _ ids s now now _ ids id))
    rw [hzero]
    exact ends_return ()
  · rw [if_neg hzero]
    refine call_error (Ends.look hloop (?_ : Ends _ _ ids s now now _ ids id))
    rw [bne_iff_ne.mpr hzero]
    exact ends_raise _

/-- The longest wait is at least the first one and every one. -/
theorem le_waitOfAll (checks : List RateCheck) (longest : Nat) :
    longest ≤ waitOfAll now s checks longest ∧
      ∀ check ∈ checks, waitOf now s check ≤ waitOfAll now s checks longest := by
  induction checks generalizing longest with
  | nil => exact ⟨Nat.le_refl _, fun _ h => nomatch h⟩
  | cons check rest ih =>
      obtain ⟨hle, hrest⟩ := ih (max longest (waitOf now s check))
      refine ⟨Nat.le_trans (Nat.le_max_left _ _) hle, ?_⟩
      intro other hother
      rcases List.mem_cons.mp hother with rfl | hother
      · exact Nat.le_trans (Nat.le_max_right _ _) hle
      · exact hrest other hother

/-- The longest time is that of one of the checks. -/
theorem waitOfAll_attained (checks : List RateCheck) (longest : Nat) :
    waitOfAll now s checks longest = longest ∨
      ∃ check ∈ checks, waitOfAll now s checks longest = waitOf now s check := by
  induction checks generalizing longest with
  | nil => exact Or.inl rfl
  | cons check rest ih =>
      rcases ih (max longest (waitOf now s check)) with h | ⟨other, hother, h⟩
      · by_cases hle : waitOf now s check ≤ longest
        · exact Or.inl (h.trans (Nat.max_eq_left hle))
        · refine Or.inr ⟨check, List.mem_cons_self, h.trans (Nat.max_eq_right ?_)⟩
          omega
      · exact Or.inr ⟨other, List.mem_cons_of_mem _ hother, h⟩

/-! ## One window -/

/-- As the clock goes on, messages leave a window and none enter it. -/
theorem recentCount_antitone (h : now ≤ t) :
    recentCount q window t s ≤ recentCount q window now s := by
  refine (List.monotone_filter_right s.messages fun m hm => ?_).length_le
  rw [Bool.and_eq_true, isRecent_iff] at hm ⊢
  exact ⟨hm.1, Nat.lt_of_le_of_lt h hm.2⟩

/-- **FULL WINDOW**: it holds as many messages as the limit, and what it waits for is the
    time until the oldest of them leaves it. -/
theorem full_window (hpos : 0 < limit) (hle : recentCount q window now s ≤ limit)
    (hfull : limit ≤ recentCount q window now s) :
    ∃ first rest, recentTimes q window now s = first :: rest ∧
      (∀ x ∈ rest, first ≤ x) ∧ now < first + seconds window ∧
      waitOf now s (q, limit, window) = ceilSeconds (first + seconds window - now) := by
  have hlen : (recentTimes q window now s).length = limit := by
    rw [length_recentTimes]
    exact Nat.le_antisymm hle hfull
  have htake : windowTimestamps q limit window now s = recentTimes q window now s :=
    List.take_of_length_le (Nat.le_of_eq hlen)
  have hsorted : (recentTimes q window now s).Pairwise (· ≤ ·) :=
    List.pairwise_insertionSort _ _
  cases hts : recentTimes q window now s with
  | nil =>
      rw [hts] at hlen
      exact absurd hlen.symm (Nat.ne_of_gt hpos)
  | cons first rest =>
      have hfirst : now < first + seconds window := by
        refine mem_recentTimes (q := q) (s := s) ?_
        rw [hts]
        exact List.mem_cons_self
      rw [hts] at hsorted
      refine ⟨first, rest, rfl, (List.pairwise_cons.mp hsorted).1, hfirst, ?_⟩
      rw [waitOf, htake, hts, windowRetryAfter, if_pos]
      rw [← hts, hlen]

/-- A window that is not full waits for nothing. -/
theorem waitOf_eq_zero (h : recentCount q window now s < limit) :
    waitOf now s (q, limit, window) = 0 := by
  have hlen : (windowTimestamps q limit window now s).length < limit := by
    show ((recentTimes q window now s).take limit).length < limit
    rw [List.length_take, length_recentTimes]
    exact Nat.lt_of_le_of_lt (Nat.min_le_right _ _) h
  show windowRetryAfter limit window now (windowTimestamps q limit window now s) = 0
  cases hts : windowTimestamps q limit window now s with
  | nil => rfl
  | cons first rest =>
      rw [hts] at hlen
      rw [windowRetryAfter, if_neg (Nat.not_le_of_lt hlen)]

theorem ceilSeconds_le {n r : Nat} (h : ceilSeconds n ≤ r) : n ≤ seconds r := by
  rw [ceilSeconds] at h
  show (n : Nat) ≤ r * 1000000
  omega

theorem lt_of_ceilSeconds {n r : Nat} (h : r = ceilSeconds n) (hpos : 0 < n) :
    seconds (r - 1) < n := by
  rw [ceilSeconds] at h
  show (r - 1) * 1000000 < (n : Nat)
  omega

/-- Before the end of the wait, in whole seconds. -/
theorem before_end {t now d e : Nat} (ht : t ≤ now + d) (hd : d < e - now) : t < e := by
  omega

/-- At the end of the wait, or after it. -/
theorem after_end {t now d e : Nat} (hd : e - now ≤ d) (ht : now + d ≤ t) : e ≤ t := by
  omega

/-- A window stays full as long as its oldest message is in it. -/
theorem stays_full (hpos : 0 < limit) (hle : recentCount q window now s ≤ limit)
    (hfull : limit ≤ recentCount q window now s)
    (ht : t ≤ now + seconds (waitOf now s (q, limit, window) - 1)) :
    limit ≤ recentCount q window t s := by
  obtain ⟨first, rest, hts, hfirst, hnow, hwait⟩ := full_window hpos hle hfull
  have hlt := lt_of_ceilSeconds hwait (Nat.sub_pos_of_lt hnow)
  refine Nat.le_trans hfull ?_
  rw [recentCount, recentCount, ← List.countP_eq_length_filter, ← List.countP_eq_length_filter]
  refine List.countP_mono_left fun m hm hin => ?_
  rw [Bool.and_eq_true] at hin ⊢
  refine ⟨hin.1, isRecent_iff.mpr ?_⟩
  -- whoever was in the window is not older than the oldest
  have hmem : m.acceptedAt ∈ recentTimes q window now s := by
    rw [recentTimes, List.mem_insertionSort, List.mem_filter]
    exact ⟨List.mem_map_of_mem (List.mem_filter.mpr ⟨hm, hin.1⟩), hin.2⟩
  have hold : first ≤ m.acceptedAt := by
    rw [hts] at hmem
    rcases List.mem_cons.mp hmem with h | h
    · exact Nat.le_of_eq h.symm
    · exact hfirst _ h
  exact Nat.lt_of_lt_of_le (before_end ht hlt) (Nat.add_le_add_right hold _)

/-- A filter that lets less through, and one element less. -/
theorem length_filter_lt {ρ : Type} {p q : ρ → Bool} (l : List ρ)
    (h : ∀ x, p x = true → q x = true) {x : ρ} (hx : x ∈ l) (hq : q x = true)
    (hp : p x = false) : (l.filter p).length < (l.filter q).length := by
  induction l with
  | nil => exact nomatch hx
  | cons y l ih =>
      have hle : (l.filter p).length ≤ (l.filter q).length :=
        (List.monotone_filter_right l h).length_le
      rw [List.filter_cons, List.filter_cons]
      rcases List.mem_cons.mp hx with rfl | hx
      · rw [if_pos hq, if_neg (by rw [hp]; exact Bool.false_ne_true), List.length_cons]
        exact Nat.lt_succ_of_le hle
      · have hlt := ih hx
        by_cases hpy : p y = true
        · rw [if_pos hpy, if_pos (h y hpy), List.length_cons, List.length_cons]
          exact Nat.succ_lt_succ hlt
        · rw [if_neg hpy]
          split
          · exact Nat.lt_succ_of_lt hlt
          · exact hlt

/-- Once the time is over, the window is not full. -/
theorem not_full_after (hpos : 0 < limit) (hle : recentCount q window now s ≤ limit) {r : Nat}
    (hr : waitOf now s (q, limit, window) ≤ r) (ht : now + seconds r ≤ t) :
    recentCount q window t s < limit := by
  have hlater : now ≤ t := Nat.le_trans (Nat.le_add_right _ _) ht
  by_cases hfull : limit ≤ recentCount q window now s
  · obtain ⟨first, rest, hts, -, hnow, hwait⟩ := full_window hpos hle hfull
    rw [hwait] at hr
    have hgone : first + seconds window ≤ t := after_end (ceilSeconds_le hr) ht
    -- the oldest message has left
    have hmem : first ∈ recentTimes q window now s := by
      rw [hts]
      exact List.mem_cons_self
    rw [recentTimes, List.mem_insertionSort, List.mem_filter] at hmem
    obtain ⟨m, hm, hmt⟩ := List.mem_map.mp hmem.1
    obtain ⟨hm, hq⟩ := List.mem_filter.mp hm
    refine Nat.lt_of_lt_of_le ?_ hle
    refine length_filter_lt s.messages (fun x hx => ?_) hm ?_ ?_
    · rw [Bool.and_eq_true, isRecent_iff] at hx ⊢
      exact ⟨hx.1, Nat.lt_of_le_of_lt hlater hx.2⟩
    · rw [hq, hmt, hmem.2]
      rfl
    · rw [hq, hmt, Bool.true_and]
      exact decide_eq_false (Nat.not_lt_of_le hgone)
  · exact Nat.lt_of_le_of_lt (recentCount_antitone hlater) (Nat.lt_of_not_le hfull)

/-! ## All windows -/

/-- Every window of the sender holds at most its limit. -/
def AtMostFull (checks : List RateCheck) (now : Time) (s : Store) : Prop :=
  ∀ check ∈ checks, 0 < check.2.1 ∧ recentCount check.1 check.2.2 now s ≤ check.2.1

/-- One of the windows is full. -/
def SomeFull (checks : List RateCheck) (now : Time) (s : Store) : Prop :=
  ∃ check ∈ checks, check.2.1 ≤ recentCount check.1 check.2.2 now s

/-- **REJECTION**: there is a wait exactly if a window is full. -/
theorem waitOfAll_ne_zero {checks : List RateCheck} (h : AtMostFull checks now s) :
    waitOfAll now s checks 0 ≠ 0 ↔ SomeFull checks now s := by
  constructor
  · intro hne
    rcases waitOfAll_attained checks 0 with hzero | ⟨check, hcheck, hmax⟩
    · exact absurd hzero hne
    · refine ⟨check, hcheck, Nat.le_of_not_lt fun hlt => hne ?_⟩
      rw [hmax]
      exact waitOf_eq_zero hlt
  · rintro ⟨check, hcheck, hfull⟩ hzero
    obtain ⟨hpos, hle⟩ := h check hcheck
    obtain ⟨first, rest, -, -, hnow, hwait⟩ := full_window hpos hle hfull
    have hbound : waitOf now s check ≤ waitOfAll now s checks 0 :=
      (le_waitOfAll checks 0).2 check hcheck
    rw [hzero] at hbound
    refine ceilSeconds_ne_zero (Nat.sub_pos_of_lt hnow) ?_
    rw [← hwait]
    exact Nat.le_zero.mp hbound

/-- Until the time is over one window stays full. -/
theorem someFull_until {checks : List RateCheck} (h : AtMostFull checks now s)
    (hfull : SomeFull checks now s)
    (ht : t ≤ now + seconds (waitOfAll now s checks 0 - 1)) : SomeFull checks t s := by
  rcases waitOfAll_attained checks 0 with hzero | ⟨check, hcheck, hmax⟩
  · exact absurd hzero ((waitOfAll_ne_zero h).mpr hfull)
  · obtain ⟨hpos, hle⟩ := h check hcheck
    refine ⟨check, hcheck, stays_full hpos hle (Nat.le_of_not_lt fun hlt => ?_) ?_⟩
    · refine (waitOfAll_ne_zero h).mpr hfull ?_
      rw [hmax]
      exact waitOf_eq_zero hlt
    · rw [hmax] at ht
      exact ht

/-- From then on none is. -/
theorem not_someFull_after {checks : List RateCheck} (h : AtMostFull checks now s)
    (ht : now + seconds (waitOfAll now s checks 0) ≤ t) : ¬ SomeFull checks t s := by
  rintro ⟨check, hcheck, hfull⟩
  obtain ⟨hpos, hle⟩ := h check hcheck
  have hbound : waitOf now s check ≤ waitOfAll now s checks 0 :=
    (le_waitOfAll checks 0).2 check hcheck
  exact absurd hfull (Nat.not_le_of_lt (not_full_after hpos hle hbound ht))

/-- The windows of a sender that are bounded and hold nothing of the future. -/
theorem atMostFull (hpast : ∀ m ∈ s.messages, m.sender = sender → m.acceptedAt ≤ now)
    (hbound : acceptedWithin sender 10 now s ≤ 10 ∧ acceptedWithin sender 60 now s ≤ 60) :
    AtMostFull (rateChecks sender connectionId) now s := by
  have hcount : ∀ (q : ChatMessage → Bool) (window : Nat),
      (∀ m, q m = true → m.sender = sender) →
      recentCount q window now s ≤ acceptedWithin sender window now s := by
    intro q window hq
    rw [recentCount, acceptedWithin, ← List.countP_eq_length_filter,
      ← List.countP_eq_length_filter]
    refine List.countP_mono_left fun m hm hin => ?_
    obtain ⟨hqm, hrecent⟩ := Bool.and_eq_true_iff.mp hin
    have hsender := hq m hqm
    rw [hrecent, beq_iff_eq.mpr hsender, decide_eq_true (hpast m hm hsender)]
    rfl
  intro check hcheck
  obtain ⟨hpos, -, hsender⟩ := rateChecks_sender hcheck
  refine ⟨hpos, Nat.le_trans (hcount _ _ hsender) ?_⟩
  simp only [rateChecks, List.mem_cons, List.not_mem_nil, or_false] at hcheck
  rcases hcheck with rfl | rfl | rfl
  · exact hbound.1
  · exact hbound.2
  · exact hbound.1

/-- The windows look at the messages of the sender, and at what was accepted only. -/
theorem someFull_congr (hsame : (s'.messages.filter (·.sender == sender)).map
      ChatMessage.accepted = (s.messages.filter (·.sender == sender)).map ChatMessage.accepted) :
    SomeFull (rateChecks sender connectionId) t s' ↔
      SomeFull (rateChecks sender connectionId) t s := by
  have hcount : ∀ check ∈ rateChecks sender connectionId,
      recentCount check.1 check.2.2 t s' = recentCount check.1 check.2.2 t s := by
    intro check hcheck
    obtain ⟨-, hq, hsender⟩ := rateChecks_sender hcheck
    exact recentCount_of_sender hq hsender hsame
  constructor
  · rintro ⟨check, hcheck, hfull⟩
    rw [hcount check hcheck] at hfull
    exact ⟨check, hcheck, hfull⟩
  · rintro ⟨check, hcheck, hfull⟩
    rw [← hcount check hcheck] at hfull
    exact ⟨check, hcheck, hfull⟩

/-- No window gets fuller by waiting. -/
theorem AtMostFull.later {checks : List RateCheck} (h : AtMostFull checks now s) (ht : now ≤ t) :
    AtMostFull checks t s := by
  intro check hcheck
  obtain ⟨hpos, hle⟩ := h check hcheck
  exact ⟨hpos, Nat.le_trans (recentCount_antitone ht) hle⟩

theorem rateAnswer_ok : rateAnswer sender connectionId t s = .ok () ↔
    waitOfAll t s (rateChecks sender connectionId) 0 = 0 := by
  rw [rateAnswer]
  constructor
  · intro h
    by_contra hne
    rw [if_neg hne] at h
    exact nomatch h
  · intro h
    rw [if_pos h]

theorem rateAnswer_limited {r : Nat} :
    rateAnswer sender connectionId t s = .error (.chatRateLimited r) ↔
      r ≠ 0 ∧ waitOfAll t s (rateChecks sender connectionId) 0 = r := by
  rw [rateAnswer]
  constructor
  · intro h
    by_cases hzero : waitOfAll t s (rateChecks sender connectionId) 0 = 0
    · rw [if_pos hzero] at h
      exact nomatch h
    · rw [if_neg hzero] at h
      have hmax := Exn.chatRateLimited.inj (Except.error.inj h)
      rw [Nat.max_eq_right (Nat.pos_of_ne_zero hzero)] at hmax
      rw [← hmax]
      exact ⟨hzero, rfl⟩
  · rintro ⟨hr, rfl⟩
    rw [if_neg hr, Nat.max_eq_right (Nat.pos_of_ne_zero hr)]

/-! ## The answer -/

/-- `_enforce_rate_limits` at time `t`, by a call that has the database to itself. -/
def limitsAt (sender : Nat) (connectionId : Uuid) (ids : Nat → Nat) (t : Time) (s : Store) :
    Except Exn Unit :=
  (call (atomic (enforceRateLimits sender connectionId t)) ids t s).1

/-- **EXACT WAIT**: a sender whose windows are bounded is refused when one of them is full,
    and let through when none is; and the time it is told to wait is the time during which
    it is refused, to the second, as long as it has no further message accepted. -/
theorem retry_after_exact (sender : Nat) (connectionId : Uuid) (ids : Nat → Nat) {s : Store}
    {now : Time} (hpast : ∀ m ∈ s.messages, m.sender = sender → m.acceptedAt ≤ now)
    (hbound : ∀ t, acceptedWithin sender 10 t s ≤ 10 ∧ acceptedWithin sender 60 t s ≤ 60) :
    ((∃ r, limitsAt sender connectionId ids now s = .error (.chatRateLimited r)) ↔
      SomeFull (rateChecks sender connectionId) now s) ∧
    (limitsAt sender connectionId ids now s = .ok () ↔
      ¬ SomeFull (rateChecks sender connectionId) now s) ∧
    ∀ r, limitsAt sender connectionId ids now s = .error (.chatRateLimited r) → 1 ≤ r ∧
      ∀ s' : Store, (s'.messages.filter (·.sender == sender)).map ChatMessage.accepted =
          (s.messages.filter (·.sender == sender)).map ChatMessage.accepted →
        (∀ t, now ≤ t → t ≤ now + seconds (r - 1) →
          ∃ r', limitsAt sender connectionId ids t s' = .error (.chatRateLimited r')) ∧
        ∀ t, now + seconds r ≤ t → limitsAt sender connectionId ids t s' = .ok () := by
  have hmost : AtMostFull (rateChecks sender connectionId) now s :=
    atMostFull hpast (hbound now)
  have answer : ∀ t s, limitsAt sender connectionId ids t s =
      rateAnswer sender connectionId t s := fun t s => by
    rw [limitsAt, call_enforceRateLimits]
  -- refused when a window is full, whatever the store is that has these messages
  have refused : ∀ t s, AtMostFull (rateChecks sender connectionId) t s →
      ((∃ r, limitsAt sender connectionId ids t s = .error (.chatRateLimited r)) ↔
        SomeFull (rateChecks sender connectionId) t s) := by
    intro t s h
    rw [← waitOfAll_ne_zero h]
    constructor
    · rintro ⟨r, hr⟩
      rw [answer, rateAnswer_limited] at hr
      rw [hr.2]
      exact hr.1
    · intro hne
      refine ⟨waitOfAll t s (rateChecks sender connectionId) 0, ?_⟩
      rw [answer, rateAnswer_limited]
      exact ⟨hne, rfl⟩
  have passed : ∀ t s, AtMostFull (rateChecks sender connectionId) t s →
      (limitsAt sender connectionId ids t s = .ok () ↔
        ¬ SomeFull (rateChecks sender connectionId) t s) := by
    intro t s h
    rw [← waitOfAll_ne_zero h, answer, rateAnswer_ok, not_not]
  refine ⟨refused now s hmost, passed now s hmost, fun r hr => ?_⟩
  have hfull := (refused now s hmost).mp ⟨r, hr⟩
  rw [answer, rateAnswer_limited] at hr
  obtain ⟨hr0, hwait⟩ := hr
  refine ⟨Nat.pos_of_ne_zero hr0, fun s' hsame => ?_⟩
  have same : ∀ t, SomeFull (rateChecks sender connectionId) t s' ↔
      SomeFull (rateChecks sender connectionId) t s := fun t => someFull_congr hsame
  have most : ∀ t, now ≤ t → AtMostFull (rateChecks sender connectionId) t s' := by
    intro t ht check hcheck
    obtain ⟨hpos, hle⟩ := hmost.later ht check hcheck
    obtain ⟨-, hq, hsender⟩ := rateChecks_sender hcheck
    rw [recentCount_of_sender hq hsender hsame]
    exact ⟨hpos, hle⟩
  constructor
  · intro t hle ht
    rw [refused t s' (most t hle), same]
    rw [← hwait] at ht
    exact someFull_until hmost hfull ht
  · intro t ht
    rw [passed t s' (most t (Nat.le_trans (Nat.le_add_right _ _) ht)), same]
    rw [← hwait] at ht
    exact not_someFull_after hmost ht

/-- Ten messages within a millisecond, the first of them five and a half seconds ago: the
    sender waits for five seconds. -/
def tenMessages : Store where
  users := [{ pk := 1, username := "buyer_one" }]
  messages := (List.range 10).map fun n =>
    { pk := n, room := 2, sender := 1, connectionId := someUuid 0, clientMessageId := someUuid n,
      body := "hello", payloadSha256 := "", delivery := .live, acceptedAt := 1000 + n }

theorem five_seconds_to_wait :
    limitsAt 1 (someUuid 0) id (1000 + 5500000) tenMessages = .error (.chatRateLimited 5) ∧
    (∀ t, 1000 + 5500000 ≤ t → t ≤ 1000 + 5500000 + seconds 4 →
      ∃ r, limitsAt 1 (someUuid 0) id t tenMessages = .error (.chatRateLimited r)) ∧
    ∀ t, 1000 + 5500000 + seconds 5 ≤ t → limitsAt 1 (someUuid 0) id t tenMessages = .ok () := by
  have hbound := senderBounds_of_length (s := tenMessages) (by decide)
  have hlimited : limitsAt 1 (someUuid 0) id (1000 + 5500000) tenMessages =
      .error (.chatRateLimited 5) := by decide +kernel
  have hexact := @retry_after_exact 1 (someUuid 0) id tenMessages (1000 + 5500000)
    (by decide +kernel) fun t => ⟨hbound.1 1 t, hbound.2 1 t⟩
  obtain ⟨-, hall⟩ := hexact.2.2 5 hlimited
  obtain ⟨huntil, hafter⟩ := hall tenMessages rfl
  exact ⟨hlimited, huntil, hafter⟩

end Market
