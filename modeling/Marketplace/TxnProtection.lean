import Mathlib.Logic.Function.Basic
import Mathlib.Logic.Relation
import Marketplace.TxnSoundness

/-! # What a lock protects

    The usual way to get a proof context: each lock protects a part of the store,
    `same l s s'` says that the part of `l` did not change, and `keep` is what every
    commit keeps, locks or not.  A session may rely on the parts of the locks it
    holds; it guarantees the parts of all locks that do not conflict with its own.
    `protect_fits` is the one argument that needs mutual exclusion. -/

namespace TxnProtection

open TxnProgram TxnInterleaving TxnLogic TxnSoundness

variable {S L E V : Type}

/-- A protection discipline. -/
structure Discipline (S L : Type) where
  same : L → S → S → Prop
  keep : S → S → Prop

/-- Parts and kept facts compose along a run. -/
structure Discipline.Lawful (P : Discipline S L) : Prop where
  same_refl : ∀ l s, P.same l s s
  same_trans : ∀ l s s' s'', P.same l s s' → P.same l s' s'' → P.same l s s''
  keep_refl : ∀ s, P.keep s s
  keep_trans : ∀ s s' s'', P.keep s s' → P.keep s' s'' → P.keep s s''

/-- What a session may rely on while it holds the locks of a list. -/
def Discipline.rely (P : Discipline S L) (held : List L) (s s' : S) : Prop :=
  P.keep s s' ∧ ∀ l ∈ held, P.same l s s'

/-- What a commit under the locks of a list leaves alone. -/
def Discipline.guar (P : Discipline S L) (D : Database S L E) (held : List L)
    (s s' : S) : Prop :=
  P.keep s s' ∧ ∀ l, (∀ x ∈ held, ¬ D.conflict x l) → P.same l s s'

/-- What the writes and the commits of one session do, besides respecting the locks
    of others. -/
structure Role (S L : Type) where
  write : S → S → Prop
  step : List L → S → S → Prop

/-- Writes compose. -/
structure Role.Lawful (R : Role S L) : Prop where
  refl : ∀ s, R.write s s
  trans : ∀ s s' s'', R.write s s' → R.write s' s'' → R.write s s''

/-- The proof context of a discipline for a session with a role. -/
def protect (D : Database S L E) (P : Discipline S L) (R : Role S L)
    (given shown : V → Nat → S → Prop) : Ctx S L E V where
  deferred := D.deferred
  fault := D.fault
  rely := P.rely
  leave held s s' := P.guar D held s s' ∧ R.write s s'
  guar held s s' := P.guar D held s s' ∧ R.write s s' ∧ R.step held s s'
  given := given
  shown := shown

theorem protect_lawful (D : Database S L E) {P : Discipline S L} (hP : P.Lawful)
    {R : Role S L} (hR : R.Lawful) (given shown : V → Nat → S → Prop) :
    Lawful (protect D P R given shown) where
  refl _ s := ⟨hP.keep_refl s, fun l _ => hP.same_refl l s⟩
  trans _ _ _ _ h h' :=
    ⟨hP.keep_trans _ _ _ h.1 h'.1,
      fun l hl => hP.same_trans _ _ _ _ (h.2 l hl) (h'.2 l hl)⟩
  anti _ _ _ _ hsub h := ⟨h.1, fun l hl => h.2 l (hsub hl)⟩
  leave_refl _ s := ⟨⟨hP.keep_refl s, fun l _ => hP.same_refl l s⟩, hR.refl s⟩
  leave_trans _ _ _ _ h h' :=
    ⟨⟨hP.keep_trans _ _ _ h.1.1 h'.1.1,
      fun l hl => hP.same_trans _ _ _ _ (h.1.2 l hl) (h'.1.2 l hl)⟩,
      hR.trans _ _ _ h.2 h'.2⟩
  leave_mono _ _ _ _ hsub h :=
    ⟨⟨h.1.1, fun l hl => h.1.2 l fun x hx => hl x (hsub hx)⟩, h.2⟩

/-- **PROTECTION**: under mutual exclusion the discipline is kept by everybody. -/
theorem protect_fits {ι : Type} {D : Database S L E} {P : Discipline S L}
    (hP : P.Lawful) (hsymm : ∀ l x, D.conflict l x → D.conflict x l)
    (henv : ∀ s s', D.env s s' → P.keep s s' ∧ ∀ l, P.same l s s')
    (R : ι → Role S L) (hR : ∀ i, (R i).Lawful) (given shown : V → Nat → S → Prop) :
    Fits D (fun i => protect D P (R i) given shown) where
  lawful i := protect_lawful D hP (hR i) given shown
  symm := hsymm
  deferred _ := rfl
  fault _ _ h := h
  env _ _ s s' h := ⟨(henv s s' h).1, fun l _ => (henv s s' h).2 l⟩
  guar := by
    intro i j held held' s s' _ hapart hg
    refine ⟨hg.1.1, fun l hl => hg.1.2 l ?_⟩
    exact fun x hx => hapart x hx l hl

/-! ## Two disciplines at once -/

/-- A context in which the locks also protect what a second discipline says. -/
def also (Γ : Ctx S L E V) (D : Database S L E) (P : Discipline S L) : Ctx S L E V :=
  { Γ with
    rely := fun held s s' => Γ.rely held s s' ∧ P.rely held s s'
    guar := fun held s s' => Γ.guar held s s' ∧ P.guar D held s s' }

theorem also_lawful {Γ : Ctx S L E V} (hΓ : Lawful Γ) (D : Database S L E)
    {P : Discipline S L} (hP : P.Lawful) : Lawful (also Γ D P) where
  refl held s := ⟨hΓ.refl held s, hP.keep_refl s, fun l _ => hP.same_refl l s⟩
  trans held s s' s'' h h' := ⟨hΓ.trans held s s' s'' h.1 h'.1,
    hP.keep_trans _ _ _ h.2.1 h'.2.1,
    fun l hl => hP.same_trans _ _ _ _ (h.2.2 l hl) (h'.2.2 l hl)⟩
  anti held held' s s' hsub h :=
    ⟨hΓ.anti held held' s s' hsub h.1, h.2.1, fun l hl => h.2.2 l (hsub hl)⟩
  leave_refl := hΓ.leave_refl
  leave_trans := hΓ.leave_trans
  leave_mono := hΓ.leave_mono

/-- **PROTECTION, TWICE**: the second discipline is kept by everybody as well. -/
theorem fits_also {ι : Type} {D : Database S L E} {Γ : ι → Ctx S L E V} (hfit : Fits D Γ)
    {P : Discipline S L} (hP : P.Lawful)
    (henv : ∀ s s', D.env s s' → P.keep s s' ∧ ∀ l, P.same l s s') :
    Fits D (fun i => also (Γ i) D P) where
  lawful i := also_lawful (hfit.lawful i) D hP
  symm := hfit.symm
  deferred := hfit.deferred
  fault := hfit.fault
  env i held s s' h :=
    ⟨hfit.env i held s s' h, (henv s s' h).1, fun l _ => (henv s s' h).2 l⟩
  guar := by
    intro i j held held' s s' hij hapart hg
    refine ⟨hfit.guar i j held held' s s' hij hapart hg.1, hg.2.1, fun l hl => ?_⟩
    exact hg.2.2 l fun x hx => hapart x hx l hl

end TxnProtection
