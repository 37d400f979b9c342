import Mathlib.Algebra.Ring.Int.Defs
import Mathlib.Algebra.BigOperators.Group.List.Basic
import Mathlib.Logic.Function.Basic

/-! # A bank

    Users have at most one account, and every payment is asked for under a key of its
    payer, which is answered once: paid or refused.  Four actions change a bank.  What is
    proved of a list of actions here holds of everything that goes through a bank by
    them. -/

namespace Bank

/-- What is written of an account. -/
structure Account where
  balance : Int
  isOpen : Bool

/-- The accounts of the users, and the answers under their keys: whether it was paid. -/
@[ext] structure State (υ κ : Type) where
  account : υ → Option Account
  answer : υ → κ → Option Bool

/-- What a new account starts with, and what an account may hold. -/
structure Terms where
  seed : Int
  max : Int
  seed_nonneg : 0 ≤ seed
  seed_le : seed ≤ max

/-- What may happen to a bank. -/
inductive Action (υ κ : Type) where
  | opens (u : υ)
  | pays (u v : υ) (n : Int) (k : κ)
  | refuses (u : υ) (k : κ)
  | closes (u : υ)

variable {υ κ : Type} {t : Terms} {a : Action υ κ} {actions : List (Action υ κ)}
  {b b' b'' : State υ κ} {u v : υ} {k : κ} {x : Account}

namespace State

/-- Nobody has an account, and nothing has been answered. -/
def init : State υ κ := ⟨fun _ => none, fun _ _ => none⟩

/-- The money of a user: none without an account. -/
def balance (u : υ) (b : State υ κ) : Int :=
  match b.account u with
  | some x => x.balance
  | none => 0

/-- The balance is the one on the account. -/
theorem balance_of_account (h : b.account u = some x) : b.balance u = x.balance := by
  simp [balance, h]

/-- Every account is within the limits, and a closed one is empty. -/
def Sound (t : Terms) (b : State υ κ) : Prop :=
  ∀ u x, b.account u = some x →
    0 ≤ x.balance ∧ x.balance ≤ t.max ∧ (x.isOpen = false → x.balance = 0)

/-- The bank without accounts is sound. -/
theorem init_sound : (init : State υ κ).Sound t := by
  intro u x hx
  cases hx

variable [DecidableEq υ]

def setAccount (u : υ) (x : Account) (b : State υ κ) : State υ κ :=
  { b with account := Function.update b.account u (some x) }

/-- What was set is found. -/
@[simp] theorem setAccount_self : (b.setAccount u x).account u = some x := by
  simp [setAccount]

/-- Other accounts are as they were. -/
@[simp] theorem setAccount_of_ne (h : v ≠ u) :
    (b.setAccount u x).account v = b.account v := by
  simp [setAccount, h]

@[simp] theorem setAccount_answer : (b.setAccount u x).answer = b.answer := rfl

theorem balance_setAccount : (b.setAccount v x).balance u =
    if u = v then x.balance else b.balance u := by
  by_cases h : u = v
  · subst h
    simp [balance]
  · simp [balance, h]

/-- A bank stays sound with an account inside its limits. -/
theorem Sound.setAccount (h : b.Sound t) (hlow : 0 ≤ x.balance)
    (hhigh : x.balance ≤ t.max) (hclosed : x.isOpen = false → x.balance = 0) :
    (b.setAccount u x).Sound t := by
  intro v y hy
  by_cases hv : v = u
  · subst hv
    rw [setAccount_self] at hy
    cases hy
    exact ⟨hlow, hhigh, hclosed⟩
  · rw [setAccount_of_ne hv] at hy
    exact h v y hy

variable [DecidableEq κ]

def setAnswer (u : υ) (k : κ) (paid : Bool) (b : State υ κ) : State υ κ :=
  { b with answer := Function.update b.answer u (Function.update (b.answer u) k (some paid)) }

@[simp] theorem setAnswer_account {paid : Bool} :
    (b.setAnswer u k paid).account = b.account := rfl

@[simp] theorem balance_setAnswer {paid : Bool} :
    (b.setAnswer v k paid).balance u = b.balance u := rfl

theorem setAnswer_answer {paid : Bool} {l : κ} : (b.setAnswer u k paid).answer v l =
    if v = u ∧ l = k then some paid else b.answer v l := by
  by_cases hv : v = u
  · subst hv
    by_cases hl : l = k
    · simp [setAnswer, hl]
    · simp [setAnswer, hl]
  · simp [setAnswer, hv]

end State

variable [DecidableEq υ] [DecidableEq κ]

/-- One action.  A payment is between two open accounts, covered, within the limit of the
    other side, and the first under its key; only an empty account is closed. -/
inductive Step (t : Terms) : Action υ κ → State υ κ → State υ κ → Prop where
  | opens (b : State υ κ) (u : υ) : b.account u = none →
      Step t (.opens u) b (b.setAccount u ⟨t.seed, true⟩)
  | pays (b : State υ κ) (u v : υ) (x y n : Int) (k : κ) : u ≠ v → b.account u = some ⟨x, true⟩ →
      b.account v = some ⟨y, true⟩ → b.answer u k = none → 0 < n → n ≤ x → y + n ≤ t.max →
      Step t (.pays u v n k) b
        (((b.setAccount u ⟨x - n, true⟩).setAccount v ⟨y + n, true⟩).setAnswer u k true)
  | refuses (b : State υ κ) (u : υ) (k : κ) : (b.account u).isSome = true → b.answer u k = none →
      Step t (.refuses u k) b (b.setAnswer u k false)
  | closes (b : State υ κ) (u : υ) : b.account u = some ⟨0, true⟩ →
      Step t (.closes u) b (b.setAccount u ⟨0, false⟩)

/-- One action after the other. -/
inductive Path (t : Terms) (b : State υ κ) : List (Action υ κ) → State υ κ → Prop where
  | nil : Path t b [] b
  | snoc {actions : List (Action υ κ)} {b' b'' : State υ κ} {a : Action υ κ} :
      Path t b actions b' → Step t a b' b'' → Path t b (actions ++ [a]) b''

/-! ## Balances -/

/-- What an action adds to the money of a user. -/
def Action.change (t : Terms) (u : υ) : Action υ κ → Int
  | .opens v => if u = v then t.seed else 0
  | .pays v w n _ => (if u = w then n else 0) - (if u = v then n else 0)
  | .refuses _ _ => 0
  | .closes _ => 0

/-- **STEP**: every balance moves by what the action says. -/
theorem Step.balance (h : Step t a b b') (u : υ) :
    b'.balance u = b.balance u + a.change t u := by
  cases h with
  | opens _ v hv =>
      rw [State.balance_setAccount, Action.change]
      by_cases hu : u = v
      · rw [hu, State.balance, hv]
        simp
      · simp [hu]
  | pays _ v w x y n k hne hx hy hk hn hnx hny =>
      rw [State.balance_setAnswer, State.balance_setAccount, State.balance_setAccount,
        Action.change]
      -- the two sides of the payment, and everybody else
      by_cases hw : u = w
      · subst hw
        have hv : u ≠ v := Ne.symm hne
        rw [State.balance_of_account hy]
        simp [hv]
      · by_cases hv : u = v
        · subst hv
          rw [State.balance_of_account hx]
          simp only [hw, if_true, if_false]
          omega
        · simp [hv, hw]
  | refuses _ v k hv hk => simp [Action.change]
  | closes _ v hv =>
      rw [State.balance_setAccount, Action.change, Int.add_zero]
      by_cases hu : u = v
      · rw [hu, State.balance_of_account hv]
        simp
      · simp [hu]

/-- **BALANCES**: the money of a user is what the actions brought. -/
theorem Path.balance (h : Path t b actions b') (u : υ) :
    b'.balance u = b.balance u + (actions.map (·.change t u)).sum := by
  induction h with
  | nil => simp
  | snoc _ hs ih =>
      rw [hs.balance u, ih, List.map_append, List.sum_append]
      simp only [List.map_cons, List.map_nil, List.sum_cons, List.sum_nil]
      omega

/-- A step keeps the bank sound. -/
theorem Step.sound (h : Step t a b b') (hb : b.Sound t) : b'.Sound t := by
  have hseed := t.seed_nonneg
  have hmax := t.seed_le
  cases h with
  | opens _ u hu => exact hb.setAccount hseed hmax (by simp)
  | pays _ u v x y n k hne hx hy hk hn hnx hny =>
      obtain ⟨hx0, hx1, -⟩ := hb u _ hx
      obtain ⟨hy0, -, -⟩ := hb v _ hy
      dsimp only at hx0 hx1 hy0
      have hu : (b.setAccount u ⟨x - n, true⟩).Sound t :=
        hb.setAccount (by show 0 ≤ x - n; omega) (by show x - n ≤ t.max; omega) (by simp)
      exact hu.setAccount (by show 0 ≤ y + n; omega) hny (by simp)
  | refuses _ u k hu hk => exact hb
  | closes _ u hu => exact hb.setAccount (Int.le_refl 0) (by show 0 ≤ t.max; omega) (by simp)

/-- **RUN**: a path keeps it sound. -/
theorem Path.sound (h : Path t b actions b') (hb : b.Sound t) : b'.Sound t := by
  induction h with
  | nil => exact hb
  | snoc _ hs ih => exact hs.sound ih

/-! ## Answers -/

/-- The key that an action answers. -/
def Action.key : Action υ κ → Option (υ × κ)
  | .pays u _ _ k => some (u, k)
  | .refuses u k => some (u, k)
  | _ => none

/-- What it answers. -/
def Action.paid : Action υ κ → Bool
  | .pays _ _ _ _ => true
  | _ => false

/-- An action answers its own key, which had no answer, and no other. -/
theorem Step.answer (h : Step t a b b') (u : υ) (k : κ) :
    (a.key = some (u, k) → b.answer u k = none) ∧
      b'.answer u k = if a.key = some (u, k) then some a.paid else b.answer u k := by
  have hpair : ∀ {v : υ} {l : κ}, (u = v ∧ k = l) ↔ some (v, l) = some (u, k) := by
    intro v l
    rw [Option.some_inj, Prod.mk.injEq, eq_comm, @eq_comm _ k]
  cases h with
  | opens _ v hv => simp [Action.key]
  | closes _ v hv => simp [Action.key]
  | pays _ v w x y n l hne hx hy hl hn hnx hny =>
      simp only [State.setAnswer_answer, State.setAccount_answer, hpair, Action.key, Action.paid]
      constructor
      · rintro ⟨⟩
        exact hl
      · trivial
  | refuses _ v l hv hl =>
      simp only [State.setAnswer_answer, hpair, Action.key, Action.paid]
      constructor
      · rintro ⟨⟩
        exact hl
      · trivial

/-- **ANSWERS**: from the first day on, no key is answered twice, and the answer under a
    key is the one that was given. -/
theorem Path.answers (h : Path t State.init actions b) :
    (actions.filterMap Action.key).Nodup ∧ ∀ u k paid, b.answer u k = some paid ↔
      ∃ a ∈ actions, a.key = some (u, k) ∧ a.paid = paid := by
  induction h with
  | nil => simp [State.init]
  | @snoc actions b' b'' a _ hs ih =>
      obtain ⟨hnodup, hanswers⟩ := ih
      constructor
      · rw [List.filterMap_append]
        cases hkey : a.key with
        | none => simpa [hkey] using hnodup
        | some uk =>
            obtain ⟨u, k⟩ := uk
            have hnone := (hs.answer u k).1 hkey
            have hnew : (u, k) ∉ actions.filterMap Action.key := by
              intro hmem
              obtain ⟨c, hc, hck⟩ := List.mem_filterMap.mp hmem
              rw [(hanswers u k c.paid).mpr ⟨c, hc, hck, rfl⟩] at hnone
              cases hnone
            have hlast : [a].filterMap Action.key = [(u, k)] := by simp [hkey]
            rw [hlast, List.nodup_append]
            refine ⟨hnodup, by simp, ?_⟩
            intro x hx y hy
            rw [List.mem_singleton.mp hy]
            exact ne_of_mem_of_not_mem hx hnew
      · intro u k paid
        rw [(hs.answer u k).2]
        by_cases hkey : a.key = some (u, k)
        · have hnone := (hs.answer u k).1 hkey
          rw [if_pos hkey]
          constructor
          · rintro ⟨⟩
            exact ⟨a, by simp, hkey, rfl⟩
          · rintro ⟨c, hc, hck, rfl⟩
            rcases List.mem_append.mp hc with hc | hc
            · rw [(hanswers u k c.paid).mpr ⟨c, hc, hck, rfl⟩] at hnone
              cases hnone
            · rw [List.mem_singleton.mp hc]
        · rw [if_neg hkey, hanswers]
          constructor
          · rintro ⟨c, hc, h⟩
            exact ⟨c, List.mem_append_left _ hc, h⟩
          · rintro ⟨c, hc, hck, hp⟩
            rcases List.mem_append.mp hc with hc | hc
            · exact ⟨c, hc, hck, hp⟩
            · rw [List.mem_singleton.mp hc] at hck
              exact absurd hck hkey

end Bank
