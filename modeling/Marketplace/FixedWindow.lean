import Mathlib.Data.List.Basic

/-! # Counting failures in fixed windows

    A counter opens a window at its first touch, counts the failures in it, and blocks
    for a cooldown that is no shorter than the window once the threshold is reached.
    A window may start at any time, so that an interval as long as a window meets two
    of them; but the first one cannot have been filled.  Hence the bound
    `2 * threshold - 1` on the failures in any such interval. -/

namespace FixedWindow

/-! ## Counters -/

structure Policy where
  window : Nat
  threshold : Nat
  cooldown : Nat
  window_pos : 0 < window
  threshold_pos : 0 < threshold
  window_le : window ≤ cooldown

structure Counter where
  started : Nat
  count : Nat
  blockedUntil : Option Nat

/-- An attempt that was let through: it fails, it passes and is not counted, or it
    passes and clears the counter. -/
inductive Attempt where
  | failed | passed | cleared
  deriving DecidableEq

variable {p : Policy} {c c' : Counter} {now t x b : Nat}

def Counter.blocked (c : Counter) (now : Nat) : Prop := ∃ b, c.blockedUntil = some b ∧ now < b

/-- A window that starts now. -/
def Counter.start (now : Nat) : Counter := ⟨now, 0, none⟩

/-- The window of now: the old one, or a new one when the old one is over. -/
def Counter.current (p : Policy) (now : Nat) (c : Counter) : Counter :=
  if c.started + p.window ≤ now then .start now else c

/-- One more failure. -/
def Counter.fail (p : Policy) (now : Nat) (c : Counter) : Counter :=
  { started := (c.current p now).started,
    count := (c.current p now).count + 1,
    blockedUntil := if p.threshold ≤ (c.current p now).count + 1 then some (now + p.cooldown)
      else (c.current p now).blockedUntil }

def Counter.after (p : Policy) (now : Nat) (c : Counter) : Attempt → Counter
  | .failed => c.fail p now
  | .passed => c
  | .cleared => .start now

/-- A failure past the window starts a new one. -/
theorem Counter.fail_over (h : c.started + p.window ≤ now) :
    c.fail p now = (Counter.start now).fail p now := by
  have hstart : (Counter.start now).current p now = .start now := by
    rw [current, if_neg]
    rw [Nat.not_le]
    exact Nat.lt_add_of_pos_right p.window_pos
  rw [fail, fail, hstart, current, if_pos h]

/-- A failure inside the window is counted, and blocks at the threshold. -/
theorem Counter.fail_open (h : ¬ c.started + p.window ≤ now) :
    c.fail p now = ⟨c.started, c.count + 1,
      if p.threshold ≤ c.count + 1 then some (now + p.cooldown) else c.blockedUntil⟩ := by
  rw [fail, current, if_neg h]

/-- **BLOCK**: the failure that fills the window blocks. -/
theorem Counter.fail_blocks (h : p.threshold ≤ (c.fail p now).count) :
    (c.fail p now).blockedUntil = some (now + p.cooldown) := if_pos h

/-! ## Runs -/

/-- What happens to a counter beside attempts: one appears, or one whose window and
    whose block are over is forgotten. -/
inductive Quiet (p : Policy) (now : Nat) : Option Counter → Option Counter → Prop
  | same (c : Option Counter) : Quiet p now c c
  | opened : Quiet p now none (some (.start now))
  | dropped (c : Counter) : c.started + p.window ≤ now → ¬ c.blocked now →
      Quiet p now (some c) none

/-- A run from a counter at a time, with the log of its attempts, the latest one first. -/
inductive Run (p : Policy) (c₀ : Option Counter) (t₀ : Nat) :
    List (Nat × Attempt) → Option Counter → Nat → Prop
  | refl : Run p c₀ t₀ [] c₀ t₀
  | quiet {log : List (Nat × Attempt)} {c c' : Option Counter} {t now : Nat} :
      Run p c₀ t₀ log c t → t ≤ now → Quiet p now c c' → Run p c₀ t₀ log c' now
  | attempt {log : List (Nat × Attempt)} {c : Counter} {t now : Nat} (a : Attempt) :
      Run p c₀ t₀ log (some c) t → t ≤ now → ¬ c.blocked now →
      Run p c₀ t₀ ((now, a) :: log) (some (c.after p now a)) now

variable {o o₀ o₁ : Option Counter} {t₀ t₁ : Nat} {log log₁ : List (Nat × Attempt)}

/-- Time may pass without an event. -/
theorem Run.wait (h : Run p o₀ t₀ log o t) (hle : t ≤ now) : Run p o₀ t₀ log o now :=
  .quiet h hle (.same o)

/-- **BLOCKED**: nothing passes a block and nothing lifts it before its time. -/
theorem Run.blocked (h : Run p (some c) t₀ log o t) (hb : c.blockedUntil = some b)
    (ht : t < b) : log = [] ∧ o = some c := by
  induction h with
  | refl => exact ⟨rfl, rfl⟩
  | quiet _ hle hq ih =>
      obtain ⟨hlog, ho⟩ := ih (Nat.lt_of_le_of_lt hle ht)
      subst ho
      cases hq with
      | same => exact ⟨hlog, rfl⟩
      | dropped _ _ hopen => exact absurd ⟨b, hb, ht⟩ hopen
  | attempt _ _ hle hopen ih =>
      obtain ⟨-, ho⟩ := ih (Nat.lt_of_le_of_lt hle ht)
      cases ho
      exact absurd ⟨b, hb, ht⟩ hopen

/-! ## Counters that a run can reach -/

/-- A full window is blocked until after its end. -/
structure Sound (p : Policy) (t : Nat) (c : Counter) : Prop where
  started : c.started ≤ t
  count : c.count ≤ p.threshold
  full : p.threshold ≤ c.count → ∃ b, c.blockedUntil = some b ∧ c.started + p.window ≤ b

/-- A new counter is sound. -/
theorem Sound.start (now : Nat) : Sound p now (.start now) where
  started := Nat.le_refl _
  count := Nat.zero_le _
  full h := absurd (Nat.le_zero.mp h) (Nat.ne_of_gt p.threshold_pos)

/-- The window of an attempt that is let through is not full. -/
theorem Sound.room (h : Sound p t c) (hopen : ¬ c.blocked now)
    (hin : ¬ c.started + p.window ≤ now) : c.count < p.threshold := by
  refine Nat.lt_of_not_le fun hfull => ?_
  obtain ⟨b, hb, hle⟩ := h.full hfull
  refine hopen ⟨b, hb, ?_⟩
  exact Nat.lt_of_lt_of_le (Nat.lt_of_not_le hin) hle

/-- A failure keeps the counter sound. -/
theorem Sound.fail (h : Sound p t c) (hle : t ≤ now) (hopen : ¬ c.blocked now) :
    Sound p now (c.fail p now) := by
  have key : ∀ c : Counter, c.started ≤ now → c.count < p.threshold →
      ¬ c.started + p.window ≤ now → Sound p now (c.fail p now) := by
    intro c hs hroom hin
    rw [Counter.fail_open hin]
    refine ⟨hs, hroom, fun hfull => ⟨now + p.cooldown, if_pos hfull, ?_⟩⟩
    exact Nat.add_le_add hs p.window_le
  by_cases hover : c.started + p.window ≤ now
  · rw [Counter.fail_over hover]
    refine key _ (Nat.le_refl _) p.threshold_pos ?_
    rw [Nat.not_le]
    exact Nat.lt_add_of_pos_right p.window_pos
  · exact key c (Nat.le_trans h.started hle) (h.room hopen hover) hover

/-- Every attempt keeps the counter sound. -/
theorem Sound.after (h : Sound p t c) (hle : t ≤ now) (hopen : ¬ c.blocked now) (a : Attempt) :
    Sound p now (c.after p now a) := by
  cases a with
  | failed => exact h.fail hle hopen
  | passed => exact ⟨Nat.le_trans h.started hle, h.count, h.full⟩
  | cleared => exact .start now

/-- **RUN**: every counter that a run leaves is sound. -/
theorem Run.sound (h : Run p o₀ t₀ log o t) (h₀ : ∀ c, o₀ = some c → Sound p t₀ c) :
    ∀ c, o = some c → Sound p t c := by
  induction h with
  | refl => exact h₀
  | quiet _ hle hq ih =>
      intro c hc
      cases hq with
      | same =>
          obtain ⟨hs, hn, hfull⟩ := ih c hc
          exact ⟨Nat.le_trans hs hle, hn, hfull⟩
      | opened =>
          cases hc
          exact .start _
      | dropped => exact nomatch hc
  | attempt a _ hle hopen ih =>
      intro c hc
      cases hc
      exact (ih _ rfl).after hle hopen a

/-! ## What the count counts -/

def isFailed (e : Nat × Attempt) : Bool := e.2 == .failed

/-- The log since the counter was cleared. -/
def sinceCleared (log : List (Nat × Attempt)) : List (Nat × Attempt) :=
  log.takeWhile fun e => e.2 != .cleared

/-- The failures in the log from `started` on, since the counter was cleared. -/
def windowFailures (started : Nat) (log : List (Nat × Attempt)) : Nat :=
  (sinceCleared log).countP fun e => isFailed e && decide (started ≤ e.1)

/-- The failures before the window are over, and the others were counted. -/
def Counted (p : Policy) (log : List (Nat × Attempt)) (t : Nat) : Option Counter → Prop
  | none => ∀ e ∈ sinceCleared log, isFailed e = true → e.1 < t
  | some c => (∀ e ∈ sinceCleared log, isFailed e = true → e.1 < c.started + p.window) ∧
      windowFailures c.started log = c.count

/-- Where the failures since the last success are over, none of them counts. -/
theorem windowFailures_zero (h : ∀ e ∈ sinceCleared log, isFailed e = true → e.1 < now) :
    windowFailures now log = 0 := by
  rw [windowFailures, List.countP_eq_zero]
  intro e he hin
  obtain ⟨hfailed, hle⟩ := Bool.and_eq_true_iff.mp hin
  exact Nat.not_lt.mpr (of_decide_eq_true hle) (h e he hfailed)

/-- A failure is an event since the last success. -/
theorem sinceCleared_failed (now : Nat) (log : List (Nat × Attempt)) :
    sinceCleared ((now, .failed) :: log) = (now, .failed) :: sinceCleared log := rfl

/-- A failure inside the window is counted once. -/
theorem windowFailures_failed (started : Nat) (hle : started ≤ now) :
    windowFailures started ((now, .failed) :: log) = windowFailures started log + 1 := by
  rw [windowFailures, sinceCleared_failed, List.countP_cons_of_pos]
  · rfl
  · exact Bool.and_eq_true_iff.mpr ⟨rfl, decide_eq_true hle⟩

/-- What changes no counter changes no count. -/
theorem Counted.quiet (h : Counted p log t o) (hle : t ≤ now) {o' : Option Counter}
    (hq : Quiet p now o o') : Counted p log now o' := by
  have before : o = none → ∀ e ∈ sinceCleared log, isFailed e = true → e.1 < now := by
    intro ho e he hf
    rw [ho] at h
    exact Nat.lt_of_lt_of_le (h e he hf) hle
  cases hq with
  | same =>
      cases o with
      | none => exact before rfl
      | some c => exact h
  | opened =>
      have hold := before rfl
      refine ⟨fun e he hf => ?_, windowFailures_zero hold⟩
      exact Nat.lt_of_lt_of_le (hold e he hf) (Nat.le_add_right _ _)
  | dropped c hover _ => exact fun e he hf => Nat.lt_of_lt_of_le (h.1 e he hf) hover

/-- The counter and the log count a failure alike. -/
theorem Counted.fail (h : Counted p log t (some c)) (hstarted : c.started ≤ now) :
    Counted p ((now, .failed) :: log) now (some (c.fail p now)) := by
  have key : ∀ c : Counter, c.started ≤ now → ¬ c.started + p.window ≤ now →
      Counted p log t (some c) →
      Counted p ((now, .failed) :: log) now (some (c.fail p now)) := by
    intro c hs hin hc
    rw [Counter.fail_open hin]
    refine ⟨fun e he hf => ?_, ?_⟩
    · rcases List.mem_cons.mp he with rfl | he
      · exact Nat.lt_of_not_le hin
      · exact hc.1 e he hf
    · rw [windowFailures_failed _ hs, hc.2]
  by_cases hover : c.started + p.window ≤ now
  · -- the failures of the window that is over lie before the new one
    have hold : ∀ e ∈ sinceCleared log, isFailed e = true → e.1 < now :=
      fun e he hf => Nat.lt_of_lt_of_le (h.1 e he hf) hover
    rw [Counter.fail_over hover]
    refine key _ (Nat.le_refl _) ?_ ⟨fun e he hf => ?_, windowFailures_zero hold⟩
    · rw [Nat.not_le]
      exact Nat.lt_add_of_pos_right p.window_pos
    · exact Nat.lt_of_lt_of_le (hold e he hf) (Nat.le_add_right _ _)
  · exact key c hstarted hover h

/-- The counter and the log count every attempt alike. -/
theorem Counted.after (h : Counted p log t (some c)) (hstarted : c.started ≤ now)
    (a : Attempt) : Counted p ((now, a) :: log) now (some (c.after p now a)) := by
  cases a with
  | failed => exact h.fail hstarted
  | passed =>
      refine ⟨fun e he hf => ?_, ?_⟩
      · rcases List.mem_cons.mp he with rfl | he
        · exact nomatch hf
        · exact h.1 e he hf
      · exact h.2
  | cleared => exact ⟨fun _ he => absurd he List.not_mem_nil, rfl⟩

/-- **COUNT**: from no counter on, the count is the number of failures in the window. -/
theorem Run.counted (h : Run p none t₀ log o t) : Counted p log t o := by
  induction h with
  | refl => exact fun _ he => absurd he List.not_mem_nil
  | quiet _ hle hq ih => exact ih.quiet hle hq
  | attempt a hrun hle _ ih =>
      have hs := hrun.sound (fun _ h => nomatch h) _ rfl
      exact ih.after (Nat.le_trans hs.started hle) a

/-! ## Any interval as long as a window -/

/-- The failures in `[x, x + window)`. -/
def failuresIn (p : Policy) (x : Nat) (log : List (Nat × Attempt)) : Nat :=
  log.countP fun e => isFailed e && (decide (x ≤ e.1) && decide (e.1 < x + p.window))

/-- What is so inside the interval after `n` failures in it: all of them lie in the
    window, or the window started in the interval and the one before it was not full. -/
structure Within (p : Policy) (x n : Nat) (c : Counter) : Prop where
  earlier : c.started < x → n ≤ c.count ∧ n ≤ p.threshold
  later : x ≤ c.started → n + 1 ≤ p.threshold + c.count ∧ c.count ≤ p.threshold
  full : p.threshold ≤ (if c.started < x then n else c.count) →
    ∃ b, c.blockedUntil = some b ∧ x + p.window ≤ b

/-- Before the first failure of the interval a sound counter is within it. -/
theorem Sound.within (h : Sound p t c) : Within p x 0 c where
  earlier _ := ⟨Nat.zero_le _, Nat.zero_le _⟩
  later _ := ⟨Nat.le_trans p.threshold_pos (Nat.le_add_right _ _), h.count⟩
  full hfull := by
    by_cases hx : c.started < x
    · rw [if_pos hx] at hfull
      exact absurd (Nat.le_zero.mp hfull) (Nat.ne_of_gt p.threshold_pos)
    · rw [if_neg hx] at hfull
      obtain ⟨b, hb, hle⟩ := h.full hfull
      refine ⟨b, hb, Nat.le_trans ?_ hle⟩
      exact Nat.add_le_add_right (Nat.le_of_not_lt hx) _

/-- An attempt inside the interval finds room. -/
theorem Within.room {n : Nat} (h : Within p x n c) (hopen : ¬ c.blocked now)
    (hnow : now < x + p.window) : (if c.started < x then n else c.count) < p.threshold := by
  refine Nat.lt_of_not_le fun hfull => ?_
  obtain ⟨b, hb, hle⟩ := h.full hfull
  exact hopen ⟨b, hb, Nat.lt_of_lt_of_le hnow hle⟩

/-- Each failure in the interval adds one to it. -/
theorem Within.fail {n : Nat} (h : Within p x n c) (hopen : ¬ c.blocked now) (hx : x ≤ now)
    (hnow : now < x + p.window) : Within p x (n + 1) (c.fail p now) := by
  have hroom := h.room hopen hnow
  have hblock : x + p.window ≤ now + p.cooldown := Nat.add_le_add hx p.window_le
  have hpos := p.threshold_pos
  by_cases hover : c.started + p.window ≤ now
  · -- the old window started before the interval and was not filled
    have hearlier : c.started < x :=
      Nat.lt_of_add_lt_add_right (Nat.lt_of_le_of_lt hover hnow)
    rw [if_pos hearlier] at hroom
    have hin : ¬ (Counter.start now).started + p.window ≤ now := by
      rw [Nat.not_le]
      exact Nat.lt_add_of_pos_right p.window_pos
    rw [Counter.fail_over hover, Counter.fail_open hin]
    refine ⟨fun hlt => absurd hx (Nat.not_le.mpr hlt), fun _ => ⟨?_, ?_⟩, fun hfull => ?_⟩
    · show n + 1 + 1 ≤ p.threshold + (0 + 1)
      omega
    · exact hpos
    · change p.threshold ≤ (if now < x then n + 1 else 0 + 1) at hfull
      rw [if_neg (Nat.not_lt.mpr hx)] at hfull
      exact ⟨_, if_pos hfull, hblock⟩
  · rw [Counter.fail_open hover]
    by_cases hearlier : c.started < x
    · rw [if_pos hearlier] at hroom
      obtain ⟨hle, -⟩ := h.earlier hearlier
      refine ⟨fun _ => ⟨Nat.succ_le_succ hle, hroom⟩,
        fun hlater => absurd hearlier (Nat.not_lt.mpr hlater), fun hfull => ?_⟩
      rw [if_pos hearlier] at hfull
      exact ⟨_, if_pos (Nat.le_trans hfull (Nat.succ_le_succ hle)), hblock⟩
    · rw [if_neg hearlier] at hroom
      obtain ⟨hle, -⟩ := h.later (Nat.le_of_not_lt hearlier)
      refine ⟨fun hlt => absurd hlt hearlier, fun _ => ⟨?_, hroom⟩, fun hfull => ?_⟩
      · show n + 1 + 1 ≤ p.threshold + (c.count + 1)
        omega
      · rw [if_neg hearlier] at hfull
        exact ⟨_, if_pos hfull, hblock⟩

/-- The invariant of a run: the bound, and what is so until the end of the interval. -/
structure Progress (p : Policy) (x n t : Nat) (o : Option Counter) : Prop where
  bound : n + 1 ≤ 2 * p.threshold
  reached : n = 0 ∨ x ≤ t
  absent : t < x + p.window → o = none → n < p.threshold
  within : t < x + p.window → ∀ c, o = some c → Within p x n c

/-- A stretch without attempts loses nothing of the progress. -/
theorem Progress.quiet {n : Nat} {o' : Option Counter} (h : Progress p x n t o)
    (hle : t ≤ now) (hq : Quiet p now o o') : Progress p x n now o' := by
  have hreached : n = 0 ∨ x ≤ now := h.reached.imp_right fun hx => Nat.le_trans hx hle
  refine ⟨h.bound, hreached, fun hnow ho => ?_, fun hnow c hc => ?_⟩
  · have ht := Nat.lt_of_le_of_lt hle hnow
    cases hq with
    | same => exact h.absent ht ho
    | opened => exact nomatch ho
    | dropped c hover hopen =>
        have hroom := (h.within ht c rfl).room hopen hnow
        rw [if_pos (Nat.lt_of_add_lt_add_right (Nat.lt_of_le_of_lt hover hnow))] at hroom
        exact hroom
  · have ht := Nat.lt_of_le_of_lt hle hnow
    cases hq with
    | same => exact h.within ht c hc
    | opened =>
        cases hc
        have hn := h.absent ht rfl
        have hpos := p.threshold_pos
        refine ⟨fun hlt => ?_, fun _ => ⟨?_, Nat.zero_le _⟩, fun hfull => ?_⟩
        · have hzero : n = 0 := hreached.resolve_right (Nat.not_le.mpr hlt)
          rw [hzero]
          exact ⟨Nat.zero_le _, Nat.zero_le _⟩
        · exact hn
        · exfalso
          split at hfull
          · exact Nat.not_lt.mpr hfull hn
          · exact Nat.not_lt.mpr hfull hpos
    | dropped => exact nomatch hc

/-- **BOUND**: no interval as long as a window has more failures than one less than twice
    the threshold, unless the counter was cleared in it. -/
theorem Run.failuresIn_lt (h : Run p o₀ t₀ log o t) (h₀ : ∀ c, o₀ = some c → Sound p t₀ c)
    (x : Nat) (hclear : ∀ e ∈ log, x ≤ e.1 → e.1 < x + p.window → e.2 ≠ .cleared) :
    failuresIn p x log < 2 * p.threshold := by
  suffices hp : Progress p x (failuresIn p x log) t o from hp.bound
  induction h with
  | refl =>
      have hpos := p.threshold_pos
      exact ⟨Nat.mul_pos Nat.two_pos hpos, Or.inl rfl, fun _ _ => hpos,
        fun _ c hc => (h₀ c hc).within⟩
  | quiet _ hle hq ih => exact (ih hclear).quiet hle hq
  | @attempt log c t now a hrun hle hopen ih =>
      have hp := ih fun e he => hclear e (List.mem_cons_of_mem _ he)
      have hsound := (hrun.sound h₀ c rfl).after hle hopen a
      by_cases hin : x ≤ now ∧ now < x + p.window
      · obtain ⟨hx, hnow⟩ := hin
        have hwithin := hp.within (Nat.lt_of_le_of_lt hle hnow) c rfl
        cases a with
        | cleared => exact absurd rfl (hclear _ List.mem_cons_self hx hnow)
        | passed =>
            have hsame : failuresIn p x ((now, .passed) :: log) = failuresIn p x log :=
              List.countP_cons_of_neg Bool.false_ne_true
            rw [hsame]
            exact ⟨hp.bound, Or.inr hx, fun _ ho => (nomatch ho), fun _ c' hc => by
              cases hc
              exact hwithin⟩
        | failed =>
            have hmore : failuresIn p x ((now, .failed) :: log) = failuresIn p x log + 1 := by
              refine List.countP_cons_of_pos (Bool.and_eq_true_iff.mpr ⟨rfl, ?_⟩)
              exact Bool.and_eq_true_iff.mpr ⟨decide_eq_true hx, decide_eq_true hnow⟩
            have hwithin' := hwithin.fail hopen hx hnow
            rw [hmore]
            refine ⟨?_, Or.inr hx, fun _ ho => (nomatch ho), fun _ c' hc => ?_⟩
            · have hpos := p.threshold_pos
              by_cases hearlier : (c.fail p now).started < x
              · have hle := (hwithin'.earlier hearlier).2
                omega
              · obtain ⟨hle, hcount⟩ := hwithin'.later (Nat.le_of_not_lt hearlier)
                omega
            · cases hc
              exact hwithin'
      · -- an attempt outside of the interval is not one of its failures
        have hsame : failuresIn p x ((now, a) :: log) = failuresIn p x log := by
          refine List.countP_cons_of_neg fun hc => hin ?_
          obtain ⟨-, hc⟩ := Bool.and_eq_true_iff.mp hc
          obtain ⟨hx, hnow⟩ := Bool.and_eq_true_iff.mp hc
          exact ⟨of_decide_eq_true hx, of_decide_eq_true hnow⟩
        rw [hsame]
        refine ⟨hp.bound, hp.reached.imp_right fun hx => Nat.le_trans hx hle,
          fun _ ho => (nomatch ho), fun hnow c' hc => ?_⟩
        cases hc
        have hx : ¬ x ≤ now := fun hx => hin ⟨hx, hnow⟩
        rw [hp.reached.resolve_right fun h => hx (Nat.le_trans h hle)]
        exact hsound.within

end FixedWindow
