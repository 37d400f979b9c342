import Marketplace.ChatRuns
import Marketplace.Engagement
import Marketplace.Tenancy
import Marketplace.TransferOutcomes
import Marketplace.UserRuns

/-! # What a withdrawal leaves behind

    A withdrawal takes away the favorites and the notifications of the user.  Each of the
    services that add one locks the user first, and adds it only when the locked row is not
    withdrawn.  Here are the registry of what users hold, and what the bodies of the
    services add to it. -/

namespace Market

open TxnProgram TxnInterleaving TxnLogic TxnProtection TxnSoundness TxnBody TxnFrames
  TxnInvariants TxnSchedule Tenancy

variable {p : Platform} {Γ : Ctx Store Lock Exn Obs} {w w' w1 w2 : World Store Lock Obs}
  {s s' s'' : Store} {held : List Lock} {P P' : Nat → Prop}

/-! ## Holdings -/

/-- The user has withdrawn. -/
def HasWithdrawn (s : Store) (n : Nat) : Prop :=
  ∃ u ∈ s.users, u.pk = n ∧ u.withdrawnAt.isSome

/-- Favorites and notifications, and whose they are. -/
def holdings : Registry Store Nat (Favorite ⊕ Notification) where
  retired := HasWithdrawn
  item s := Sum.elim (· ∈ s.favorites) (· ∈ s.notifications)
  owner := Sum.elim (·.user) (·.recipient)

/-- **INVARIANT**: users have keys, and who has withdrawn holds nothing. -/
structure ResidueInv (s : Store) : Prop where
  keys : UserKeys s
  clean : holdings.Clean s

/-- The row of the user is locked, and the user has not withdrawn. -/
structure Standing (held : List Lock) (s : Store) (n : Nat) : Prop where
  lock : .row .user n ∈ held
  active : ∃ u ∈ s.users, u.pk = n ∧ u.withdrawnAt = none

theorem Standing.near {n : Nat} (hA : Abides p Γ) (h : Standing w.sess.held w.db n)
    (hn : Near Γ w w') : Standing w'.sess.held w'.db n := by
  obtain ⟨u, hu, hpk, hnone⟩ := h.active
  exact ⟨hn.held h.lock, u, (hA.same hn h.lock).1 u hu hpk, hpk, hnone⟩

/-- Two rows of one key are one row: who stands has not withdrawn. -/
theorem Standing.not_withdrawn {n : Nat} (h : Standing held s n) (hkeys : UserKeys s) :
    ¬ HasWithdrawn s n := by
  rintro ⟨v, hv, hvpk, hgone⟩
  obtain ⟨u, hu, hpk, hnone⟩ := h.active
  rw [hkeys.eq hv hu (hvpk.trans hpk.symm), hnone] at hgone
  cases hgone

/-! ## Writes that add -/

/-- Users stay as they are, and what is added belongs to those of `P`. -/
structure Extends (P : Nat → Prop) (s s' : Store) : Prop where
  users : s'.users = s.users
  items : ∀ i, holdings.item s' i → holdings.item s i ∨ P (holdings.owner i)

theorem Extends.refl (P : Nat → Prop) (s : Store) : Extends P s s := ⟨rfl, fun _ h => .inl h⟩

theorem extends_composes (P : Nat → Prop) : Composes (Extends P) where
  refl := Extends.refl P
  trans s s' s'' h h' := by
    refine ⟨h'.users.trans h.users, fun i hi => ?_⟩
    rcases h'.items i hi with hi | hi
    · exact h.items i hi
    · exact .inr hi

theorem Extends.mono (h : Extends P s s') (hP : ∀ n, P n → P' n) : Extends P' s s' :=
  ⟨h.users, fun i hi => (h.items i hi).imp_right (hP _)⟩

/-- A write that leaves users, favorites and notifications alone. -/
theorem Extends.of_same (husers : s'.users = s.users) (hfavorites : s'.favorites = s.favorites)
    (hnotifications : s'.notifications = s.notifications) : Extends P s s' := by
  refine ⟨husers, fun i hi => .inl ?_⟩
  cases i with
  | inl r =>
      show r ∈ s.favorites
      rw [← hfavorites]
      exact hi
  | inr n =>
      show n ∈ s.notifications
      rw [← hnotifications]
      exact hi

theorem extends_addFavorite {r : Favorite} (h : P r.user) (s : Store) :
    Extends P s (addFavorite r s) := by
  refine ⟨rfl, fun i hi => ?_⟩
  cases i with
  | inl x =>
      rcases List.mem_append.mp hi with hx | hx
      · exact .inl hx
      · rw [List.mem_singleton.mp hx]
        exact .inr h
  | inr n => exact .inl hi

theorem extends_addNotification {n : Notification} (h : P n.recipient) (s : Store) :
    Extends P s (addNotification n s) := by
  refine ⟨rfl, fun i hi => ?_⟩
  cases i with
  | inl r => exact .inl hi
  | inr x =>
      rcases List.mem_append.mp hi with hx | hx
      · exact .inl hx
      · rw [List.mem_singleton.mp hx]
        exact .inr h

theorem extends_removeFavorites (pks : List Nat) (s : Store) :
    Extends P s (removeFavorites pks s) := by
  refine ⟨rfl, fun i hi => .inl ?_⟩
  cases i with
  | inl r => exact (List.mem_filter.mp hi).1
  | inr n => exact hi

/-- **COMMIT** of what was added for users who stand. -/
theorem Extends.residue (h : Extends (Standing held s) s s') (hI : ResidueInv s) :
    ResidueInv s' := by
  have hkeys : UserKeys s' := by
    rw [UserKeys, h.users]
    exact hI.keys
  refine ⟨hkeys, hI.clean.grows ⟨fun n hn => ?_, fun i hi => ?_⟩⟩
  · show HasWithdrawn s n
    rw [HasWithdrawn, ← h.users]
    exact hn
  · exact (h.items i hi).imp_right fun hstand => hstand.not_withdrawn hI.keys

/-! ## What a body adds -/

/-- What a part of a body adds to what was written, it adds for users who stand. -/
def Adds (w w' : World Store Lock Obs) : Prop :=
  ∀ s, Extends (Standing w'.sess.held w'.db) (w.sess.pend s) (w'.sess.pend s)

theorem Adds.users (h : Adds w w') (s : Store) :
    (w'.sess.pend s).users = (w.sess.pend s).users := (h s).users

theorem Adds.of_pend (h : w'.sess.pend = w.sess.pend) : Adds w w' := by
  intro s
  rw [h]
  exact Extends.refl _ _

theorem Adds.trans (hA : Abides p Γ) (h : Adds w w1) (hn : Near Γ w1 w2) (h' : Adds w1 w2) :
    Adds w w2 := by
  intro s
  have hfirst := (h s).mono fun n hstand => Standing.near hA hstand hn
  exact (extends_composes _).trans _ _ _ hfirst (h' s)

/-- What a savepoint adds is kept at its release. -/
theorem Adds.release (hA : Abides p Γ) (he : Env Γ w w') (h : Adds w'.begin w1)
    (he2 : Env Γ w1 w2) : Adds w w2.release := by
  intro s
  have hlast := (h s).mono fun n hstand => Standing.near hA hstand he2.still.toNear
  rw [World.begin_pend, he.sess] at hlast
  show Extends _ (w.sess.pend s) (w2.sess.pend s)
  rw [he2.still.pend]
  exact hlast

/-- Who is locked, is active and has not withdrawn stands; else an error is raised. -/
theorem look_standingUser (hA : Abides p Γ) (n : Nat) {handler : Exn → M User}
    (husers : ∀ s, (w.sess.pend s).users = s.users)
    (hraise : ∀ e, ∃ e', handler e = raise e') :
    Look Γ (Prog.tryCatch (getForUpdate .user (·.users) (·.pk) fun u =>
        u.pk == n && u.isActive && u.withdrawnAt.isNone) handler) w
      (fun u w' => Standing w'.sess.held w'.db u.pk) anyError := by
  have hΓ := hA.lawful
  refine Look.tryCatch (G := anyError) hΓ ((look_getForUpdate hΓ anyError_faults _ _ _ _
    trivial).mono fun u w1 h1 ⟨hu, hq, hl⟩ => ⟨hl, u, ?_, rfl, ?_⟩) fun e w1 _ _ => ?_
  · rw [h1.view, husers] at hu
    exact hu
  · rw [Bool.and_eq_true] at hq
    exact Option.isNone_iff_eq_none.mp hq.2
  · obtain ⟨e', he'⟩ := hraise e
    rw [he']
    exact Look.raise hΓ trivial

section Rules

variable {α β : Type} {m : M α} {f : α → M β} {Q : α → World Store Lock Obs → Prop}

/-- One part of a body after the other. -/
theorem body_bind_adds (hA : Abides p Γ) (hm : Body Γ m w (fun _ w' => Adds w w') anyError)
    (hf : ∀ a w1, Within Γ w w1 → Adds w w1 →
      Body Γ (f a) w1 (fun _ w' => Adds w1 w') anyError) :
    Body Γ (m >>= f) w (fun _ w' => Adds w w') anyError := by
  refine wp_bind (wp_mono ?_ hm)
  rintro (e | a) w1 ⟨hs, hadds⟩
  · exact ⟨hs, hadds⟩
  · refine wp_mono ?_ (hf a w1 hs hadds)
    rintro (e | b) w2 ⟨hs', hadds'⟩
    · exact ⟨hs.trans hA.lawful hs', hadds'⟩
    · exact ⟨hs.trans hA.lawful hs', hadds.trans hA hs'.toNear hadds'⟩

/-- Looking, and then the rest of a body. -/
theorem body_look_adds (hA : Abides p Γ) (hm : Look Γ m w Q anyError)
    (hf : ∀ a w1, Still Γ w w1 → Q a w1 →
      Body Γ (f a) w1 (fun _ w' => Adds w1 w') anyError) :
    Body Γ (m >>= f) w (fun _ w' => Adds w w') anyError := by
  refine Body.look hA.lawful hm fun a w1 h1 hq => (hf a w1 h1 hq).mono fun _ w2 h2 hadds => ?_
  exact (Adds.of_pend h1.pend).trans hA h2.toNear hadds

/-- A body that makes only writes of these kinds adds nothing. -/
theorem body_adds_of_safe (hA : Abides p Γ) (ks : List WriteKind)
    (hks : ∀ k ∈ ks, ∀ held f, Licensed held k f → ∀ s, Extends (fun _ => False) s (f s))
    (hm : ∀ Γ', Lawful Γ' → PermitsAll Γ' ks → Safe Γ' [] m) (hopen : w.sess.frames ≠ []) :
    Body Γ m w (fun _ w' => Adds w w') anyError := by
  refine (body_keeps hA.lawful (hA.permits ks) (extends_composes fun _ => False) hks hm hopen
    no_locks).mono fun _ w' _ h s => ?_
  exact (h s).mono fun _ hfalse => False.elim hfalse

/-- A nested transaction. -/
theorem body_atomic_adds (hA : Abides p Γ) (hopen : w.sess.frames ≠ [])
    (hm : ∀ w', Env Γ w w' → Body Γ m w'.begin (fun _ w1 => Adds w'.begin w1) anyError) :
    Body Γ (atomic m) w (fun _ w' => Adds w w') anyError := by
  refine (Body.atomic (P := fun w' _ w1 => Adds w'.begin w1) hA.lawful anyError_faults hopen
    hm).mono ?_
  rintro a w3 _ ⟨w', w1, w2, he, -, hadds, he2, rfl⟩
  exact Adds.release hA he hadds he2

end Rules

end Market
