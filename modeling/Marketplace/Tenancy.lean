import Mathlib.Data.List.Basic

/-! # What the retired have left

    Items belong to owners, and an owner may retire.  An item is added only for an owner
    who has not retired, and who retires leaves none.  So no item ever belongs to a retired
    owner. -/

namespace Tenancy

/-- Who of a state has retired, which items it holds, and whose they are. -/
structure Registry (σ ο ι : Type) where
  retired : σ → ο → Prop
  item : σ → ι → Prop
  owner : ι → ο

variable {σ ο ι : Type} {R : Registry σ ο ι} {s s' : σ}

namespace Registry

/-- No item belongs to a retired owner. -/
def Clean (R : Registry σ ο ι) (s : σ) : Prop := ∀ i, R.item s i → ¬ R.retired s (R.owner i)

/-- Nobody retires, and a new item belongs to an owner who has not. -/
structure Grows (R : Registry σ ο ι) (s s' : σ) : Prop where
  retired : ∀ o, R.retired s' o → R.retired s o
  items : ∀ i, R.item s' i → R.item s i ∨ ¬ R.retired s (R.owner i)

/-- One owner retires and leaves no item; nothing is added. -/
structure Retires (R : Registry σ ο ι) (o : ο) (s s' : σ) : Prop where
  retired : ∀ x, R.retired s' x → R.retired s x ∨ x = o
  items : ∀ i, R.item s' i → R.item s i
  gone : ∀ i, R.item s' i → R.owner i ≠ o

theorem Clean.grows (h : R.Clean s) (hg : R.Grows s s') : R.Clean s' := by
  intro i hi hretired
  have hbefore : R.retired s (R.owner i) := hg.retired _ hretired
  rcases hg.items i hi with hold | hnew
  · exact h i hold hbefore
  · exact hnew hbefore

theorem Clean.retires {o : ο} (h : R.Clean s) (hr : R.Retires o s s') : R.Clean s' := by
  intro i hi hretired
  rcases hr.retired _ hretired with hbefore | hnow
  · exact h i (hr.items i hi) hbefore
  · exact hr.gone i hi hnow

end Registry

end Tenancy
