import Mathlib.Data.List.Chain
import Marketplace.ModerationSpecs
import Marketplace.ReadRules
import Marketplace.Reviews
import Marketplace.TxnInvariants
import Marketplace.TxnSchedule

/-! # The visibility of reviews in every run

    The decisions about a review are an append-only log, and the public list goes by the
    latest of them by time and key.  A decision is made under the lock of the review, and
    the clock is read under it too; so the order of the log is the order of the commits,
    the latest one is the last one committed, and no two in a row are the same. -/

namespace Market

open TxnProgram TxnInterleaving TxnLogic TxnProtection TxnSoundness TxnBody TxnFrames
  TxnInvariants TxnMoments TxnSchedule

variable {p : Platform} {Γ : Ctx Store Lock Exn Obs} {w w' : World Store Lock Obs}
  {s s' : Store} {a b : ReviewVisibilityAction} {T : Time} {n : Nat}

/-! ## The log of a review -/

/-- `b` is decided after `a`: not before it by its time, and after it by its key. -/
def DecidedBefore (a b : ReviewVisibilityAction) : Prop :=
  a.createdAt ≤ b.createdAt ∧ a.pk < b.pk

instance (a b : ReviewVisibilityAction) : Decidable (DecidedBefore a b) :=
  inferInstanceAs (Decidable (_ ∧ _))

/-- **LATEST IS LAST**: of a log in order, the query takes the last entry. -/
theorem latestDecision_eq (h : (decisionsOf n s).Pairwise DecidedBefore) :
    latestDecision n s = (decisionsOf n s).getLast? := by
  rw [latestDecision]
  generalize decisionsOf n s = log at h
  induction log using List.reverseRecOn with
  | nil => rfl
  | append_singleton log z _ =>
      rw [List.getLast?_append, List.getLast?_singleton, Option.some_or]
      have hsorted := List.pairwise_insertionSort
        (descBy ReviewVisibilityAction.createdAt ReviewVisibilityAction.pk) (log ++ [z])
      have hmem : ∀ x, x ∈ (log ++ [z]).insertionSort
          (descBy ReviewVisibilityAction.createdAt ReviewVisibilityAction.pk) ↔
            x ∈ log ++ [z] := fun x => List.mem_insertionSort _
      cases hl : (log ++ [z]).insertionSort
          (descBy ReviewVisibilityAction.createdAt ReviewVisibilityAction.pk) with
      | nil =>
          have hz := (hmem z).mpr (List.mem_append_right _ List.mem_cons_self)
          rw [hl] at hz
          exact nomatch hz
      | cons x rest =>
          rw [hl] at hsorted hmem
          rw [List.head?_cons]
          congr 1
          -- the first one of the sorted list is not before the last one of the log
          have hx := (hmem x).mp List.mem_cons_self
          have hz := (hmem z).mpr (List.mem_append_right _ List.mem_cons_self)
          rcases List.mem_append.mp hx with hx | hx
          · rcases List.mem_cons.mp hz with rfl | hz
            · rfl
            · have hbefore := (List.pairwise_append.mp h).2.2 x hx z List.mem_cons_self
              have hafter := (List.pairwise_cons.mp hsorted).1 z hz
              rcases hafter with hlt | ⟨-, hle⟩
              · exact absurd hlt (Nat.not_lt.mpr hbefore.1)
              · exact absurd hle (Nat.not_le.mpr hbefore.2)
          · exact List.mem_singleton.mp hx

/-- What the log of decisions is like at the time `T`. -/
structure VisibilityInv (T : Time) (s : Store) : Prop where
  timed : ∀ a ∈ s.visibilityActions, a.createdAt ≤ T
  keys : (s.visibilityActions.map (·.idempotencyKey)).Nodup
  order : ∀ n, (decisionsOf n s).Pairwise DecidedBefore
  alternate : ∀ n, ((decisionsOf n s).map (·.kind)).IsChain (· ≠ ·)

/-- The invariant at one time holds at every later one. -/
theorem VisibilityInv.later {T' : Time} (h : VisibilityInv T s) (hT : T ≤ T') :
    VisibilityInv T' s :=
  { h with timed := fun a ha => Nat.le_trans (h.timed a ha) hT }

/-- A decision that may be added. -/
structure NewDecision (T : Time) (a : ReviewVisibilityAction) (s : Store) : Prop where
  timed : a.createdAt ≤ T
  keyFree : ∀ b ∈ s.visibilityActions, b.idempotencyKey ≠ a.idempotencyKey
  last : ∀ b ∈ decisionsOf a.review s, DecidedBefore b a
  differs : ∀ b, (decisionsOf a.review s).getLast? = some b → b.kind ≠ a.kind

/-- What a commit does to the log. -/
inductive DecisionStep (T : Time) (s s' : Store) : Prop where
  | kept : s'.visibilityActions = s.visibilityActions → DecisionStep T s s'
  | decided (a : ReviewVisibilityAction) : NewDecision T a s →
      s'.visibilityActions = s.visibilityActions ++ [a] → DecisionStep T s s'

/-- A new decision joins the log of its own review only. -/
theorem decisionsOf_append (h : s'.visibilityActions = s.visibilityActions ++ [a]) (n : Nat) :
    decisionsOf n s' = if a.review = n then decisionsOf n s ++ [a] else decisionsOf n s := by
  rw [decisionsOf, h, List.filter_append, List.filter_cons, List.filter_nil]
  by_cases hn : a.review = n
  · rw [if_pos hn, if_pos (beq_iff_eq.mpr hn)]
    rfl
  · rw [if_neg hn, if_neg (fun hb => hn (beq_iff_eq.mp hb)), List.append_nil]
    rfl

/-- **STEP**: the log stays as it must be. -/
theorem DecisionStep.inv (h : DecisionStep T s s') (hi : VisibilityInv T s) :
    VisibilityInv T s' := by
  cases h with
  | kept hkept =>
      have hlog : ∀ n, decisionsOf n s' = decisionsOf n s := fun n => by
        rw [decisionsOf, hkept]
        rfl
      refine ⟨by rw [hkept]; exact hi.timed, by rw [hkept]; exact hi.keys, fun n => ?_,
        fun n => ?_⟩
      · rw [hlog]
        exact hi.order n
      · rw [hlog]
        exact hi.alternate n
  | decided a hnew hadded =>
      refine ⟨fun x hx => ?_, ?_, fun n => ?_, fun n => ?_⟩
      · rw [hadded] at hx
        rcases List.mem_append.mp hx with hx | hx
        · exact hi.timed x hx
        · rw [List.mem_singleton.mp hx]
          exact hnew.timed
      · rw [hadded, List.map_append, List.nodup_append']
        refine ⟨hi.keys, List.nodup_singleton _, fun k hk hk' => ?_⟩
        obtain ⟨x, hx, rfl⟩ := List.mem_map.mp hk
        exact hnew.keyFree x hx (List.mem_singleton.mp hk')
      · rw [decisionsOf_append hadded]
        split
        · next hn =>
            subst hn
            refine List.pairwise_append.mpr ⟨hi.order _, List.pairwise_singleton _ _, ?_⟩
            intro x hx y hy
            rw [List.mem_singleton.mp hy]
            exact hnew.last x hx
        · exact hi.order n
      · rw [decisionsOf_append hadded]
        split
        · next hn =>
            subst hn
            rw [List.map_append, List.isChain_append]
            refine ⟨hi.alternate _, List.isChain_singleton _, fun x hx y hy => ?_⟩
            rw [List.getLast?_map] at hx
            obtain ⟨b, hb, rfl⟩ := Option.map_eq_some_iff.mp hx
            cases hy
            exact hnew.differs b hb
        · exact hi.alternate n

/-- **PUBLIC**: a review is listed unless the last decision about it hides it. -/
theorem mem_publicReviews (h : VisibilityInv T s) {queryset : List Review} {r : Review} :
    r ∈ publicReviews s queryset ↔ r ∈ queryset ∧
      ∀ a, (decisionsOf r.pk s).getLast? = some a → a.kind ≠ .hide := by
  rw [publicReviews, List.mem_filter, latestDecision_eq (h.order r.pk)]
  refine and_congr_right fun _ => ?_
  cases hlast : (decisionsOf r.pk s).getLast? with
  | none => exact ⟨fun _ _ ha => (nomatch ha), fun _ => rfl⟩
  | some a =>
      show sqlHolds (sqlOr (isNull (some a.kind)) (sqlNot (sqlEq (some a.kind) .hide))) = true ↔ _
      have hall : (∀ x, some a = some x → x.kind ≠ .hide) ↔ a.kind ≠ .hide :=
        ⟨fun hh => hh a rfl, fun hh x hx => Option.some.inj hx ▸ hh⟩
      rw [hall]
      cases a.kind <;> decide

/-! ## The checks -/

variable {actor : Actor} {review : Nat} {kind : VisibilityKind}
  {reauthenticatedAt : Option Time}

/-- The locked row of the review, which is there if it was at the start. -/
theorem look_reviewRow (hA : Abides p Γ) (hop : OperationalFaults Γ)
    (hpend : w.sess.pend = id) :
    Look Γ (Prog.tryCatch (getForUpdate .review (·.reviews) (·.pk) (·.pk == review)) fun
      | .doesNotExist _ => raise (.managementNotFound "management target not found")
      | e => raise e) w
      (fun r w' => r.pk = review ∧ .row .review review ∈ w'.sess.held) anyError := by
  have hdb : ∀ {w' : World Store Lock Obs}, Still Γ w w' → w'.view = w'.db := fun hs =>
    view_of_id (hs.pend.trans hpend)
  refine Look.mono (P := fun r w' => r ∈ w'.view.reviews ∧ r.pk = review ∧
    .row .review review ∈ w'.sess.held) ?_ fun _ _ _ hr => hr.2
  refine look_lockRow hA.lawful hop anyError_faults .review (·.reviews) (·.pk) review rfl
    (fun _ => rfl) (fun ⟨r, hr, hpk⟩ w' hs => ⟨r, ?_, hpk⟩) fun _ => trivial
  rw [view_of_id hpend] at hr
  rw [hdb hs]
  exact (hA.keeps hs.toNear).reviews.subset hr

/-- The checks only read, and end with the row of the review locked. -/
theorem look_visibilityTarget (hA : Abides p Γ) (hop : OperationalFaults Γ)
    (hpend : w.sess.pend = id) :
    Look Γ (visibilityTarget actor review kind reauthenticatedAt) w
      (fun r w' => r.pk = review ∧ .row .review review ∈ w'.sess.held) anyError := by
  have hΓ := hA.lawful
  refine Look.bind hΓ (look_clockTimestamp anyError_faults) fun now w1 h1 _ => ?_
  refine Look.bind (P := fun _ _ => True) hΓ ?_ fun _ w2 h2 _ => ?_
  · cases reauthenticatedAt with
    | none => exact Look.raise hΓ trivial
    | some t => exact (look_raiseIf hΓ fun _ => trivial).mono fun _ _ _ _ => trivial
  refine Look.bind hΓ (look_reviewRow hA hop ((h1.trans hΓ h2).pend.trans hpend))
    fun r w3 h3 ⟨hpk, hlock⟩ => ?_
  refine Look.bind (P := fun _ _ => True) hΓ ?_ fun _ w4 h4 _ => ?_
  · refine Look.bind hΓ (look_raiseIf hΓ fun _ => trivial) fun _ w4 h4 _ => ?_
    refine Look.bind hΓ (look_fetch anyError_faults _) fun grant w5 h5 hgrant => ?_
    cases grant with
    | some g => exact Look.ret hΓ trivial
    | none => exact Look.raise hΓ trivial
  refine Look.bind hΓ (look_fetch anyError_faults _) fun reported w5 h5 hreported => ?_
  refine Look.bind hΓ (look_raiseIf hΓ fun _ => trivial) fun _ w6 h6 _ => ?_
  exact Look.ret hΓ ⟨hpk, h6.held (h5.held (h4.held hlock))⟩

/-! ## The decision -/

/-- A decision, under the lock of its review. -/
theorem respects_addVisibilityAction {held : List Lock}
    (hpk : .unique (.pk .visibilityAction a.pk) ∈ held)
    (hkey : .unique (.visibilityKey a.idempotencyKey) ∈ held)
    (hlock : .row .review a.review ∈ held) : Respects p held s (addVisibilityAction a s) := by
  refine Respects.of_table .visibilityAction ?_
    { Keeps.refl s with visibilityActions := List.prefix_append _ _ } ?_ ?_ ?_
  · intro t ht
    cases t <;> first | rfl | exact absurd rfl ht
  · intro t n ht ho
    cases t with
    | review =>
        show (s.visibilityActions ++ [a]).filter (·.review == n) = _
        have hne : (a.review == n) = false := by
          refine beq_eq_false_iff_ne.mpr fun hn => ?_
          rw [← hn] at ho
          exact not_open_row hlock ho
        rw [List.filter_append, List.filter_cons_of_neg (by rw [hne]; exact Bool.false_ne_true),
          List.filter_nil, List.append_nil]
    | _ => exact absurd ht (by decide)
  · exact fun _ _ ht => absurd ht (by decide)
  · intro i hi ho h
    cases i with
    | pk t n =>
        cases hi
        exact index_of_append ho (fun hq => by rw [← eq_of_beq hq]; exact hpk) h
    | visibilityKey k => exact index_of_append ho (fun hq => by rw [← eq_of_beq hq]; exact hkey) h
    | _ => exact nomatch hi

/-- The log is left alone. -/
def VisibilityQuiet (s s' : Store) : Prop := s'.visibilityActions = s.visibilityActions

/-- Leaving the decisions alone composes. -/
theorem visibilityQuiet_composes : Composes VisibilityQuiet :=
  ⟨fun _ => rfl, fun _ _ _ h h' => Eq.trans h' h⟩

/-- What is known of a decision when it is committed: it was found to differ from the latest
    one, and the clock was read between two moments of which something is given. -/
structure ReadyDecision (Γ : Ctx Store Lock Exn Obs) (a : ReviewVisibilityAction)
    (held : List Lock) (s : Store) : Prop where
  lock : .row .review a.review ∈ held
  keyFree : Free held s (.visibilityKey a.idempotencyKey)
  newest : ∀ b ∈ decisionsOf a.review s, b.pk < a.pk
  differs : ∀ b, latestDecision a.review s = some b → b.kind ≠ a.kind
  before : ∃ now s1, Γ.given (.deciding a.review) now s1 ∧
    Γ.rely [.row .review a.review] s1 s ∧ now ≤ a.createdAt
  after : ∃ now s2, Γ.given (.deciding a.review) now s2 ∧ a.createdAt ≤ now

/-- The log of a locked review. -/
theorem decisionsOf_locked (hA : Abides p Γ) (hlock : .row .review n ∈ w.sess.held)
    (h : Near Γ w w') : decisionsOf n w'.db = decisionsOf n w.db := hA.same h hlock

/-- A decision that was ready to write stays so under its lock. -/
theorem ReadyDecision.near (hA : Abides p Γ) (h : ReadyDecision Γ a w.sess.held w.db)
    (hn : Near Γ w w') : ReadyDecision Γ a w'.sess.held w'.db := by
  have hlog := decisionsOf_locked hA h.lock hn
  obtain ⟨now, s1, hgiven, hrely, hle⟩ := h.before
  refine ⟨hn.held h.lock, h.keyFree.near hA hn, ?_, ?_, ⟨now, s1, hgiven, ?_, hle⟩, h.after⟩
  · rw [hlog]
    exact h.newest
  · rw [latestDecision, hlog]
    exact h.differs
  · exact hA.lawful.trans _ _ _ _ hrely (rely_locked hA.lawful h.lock hn)

/-- Every insert of a decision may be shown. -/
def ShowsDecisions (Γ : Ctx Store Lock Exn Obs) : Prop :=
  ∀ review now s, Γ.shown (.deciding review) now s

/-- The moment of the decision lies between the call's start and its end. -/
theorem look_deciding {F : Exn → Prop} (hshow : ShowsDecisions Γ) :
    Look Γ (Prog.observe (.deciding review)) w (fun _ w' => ∃ now s1,
      Γ.given (.deciding review) now s1 ∧ s1 = w'.db ∧ w.now ≤ now ∧ now ≤ w'.now) F := by
  refine (Look.observe fun _ _ _ => hshow _ _ _).mono ?_
  rintro _ _ _ ⟨w1, h1, hgiven, rfl⟩
  exact ⟨w1.now, w1.db, hgiven, rfl, h1.now, Nat.le_refl _⟩

/-- A member of a list is at most its greatest. -/
theorem foldr_max_le {l : List Nat} {x : Nat} (hx : x ∈ l) : x ≤ l.foldr max 0 := by
  induction l with
  | nil => exact nomatch hx
  | cons y l ih =>
      rw [List.foldr_cons]
      rcases List.mem_cons.mp hx with rfl | hx
      · exact Nat.le_max_left _ _
      · exact Nat.le_trans (ih hx) (Nat.le_max_right _ _)

/-- A new value of a sequence is above those of the rows that are seen. -/
theorem look_nextValue {F : Exn → Prop} (hΓ : Lawful Γ) (hF : Faults Γ F) {ρ : Type}
    (rows : Store → List ρ)
    (pk : ρ → Nat) :
    Look Γ (nextValue rows pk) w (fun n w' => ∃ w1, Still Γ w w1 ∧ Still Γ w1 w' ∧
      ∀ r ∈ rows w1.view, pk r < n) F := by
  refine Look.bind hΓ Look.fresh fun skipped w1 h1 _ => ?_
  refine Look.bind hΓ (look_fetch hF _) fun given w2 h2 hgiven => ?_
  refine Look.ret hΓ ⟨w2, h1.trans hΓ h2, Still.refl hΓ _, fun r hr => ?_⟩
  have hle := foldr_max_le (List.mem_map_of_mem (f := pk) hr)
  rw [hgiven]
  omega

/-- **INSERT** of a decision, after a look that found another one or none. -/
theorem body_createVisibilityAction (hA : Abides p Γ) (hshow : ShowsDecisions Γ) (by' : Nat)
    (reason : String) (key : Uuid) (hlock : .row .review review ∈ w.sess.held)
    (hpend : w.sess.pend = id)
    (hdiffers : ∀ b, latestDecision review w.db = some b → b.kind ≠ kind) :
    Body Γ (createVisibilityAction by' review kind reason key) w (fun a w' =>
      (a.review = review ∧ a.kind = kind ∧ a.idempotencyKey = key) ∧
      ReadyDecision Γ a w'.sess.held w'.db ∧
      w'.sess.pend = addVisibilityAction a) anyError := by
  have hΓ := hA.lawful
  refine Body.look hΓ (look_deciding hshow) fun _ w1 h1 ⟨now1, s1, hgiven1, hs1, _, hle1⟩ => ?_
  refine Body.look hΓ (look_clockTimestamp anyError_faults) fun createdAt w2 h2 hclock => ?_
  refine Body.look hΓ (look_deciding hshow) fun _ w3 h3 ⟨now2, s2, hgiven2, _, hle2, _⟩ => ?_
  refine Body.look hΓ (look_nextValue hΓ anyError_faults _ _) fun n w4 h4 ⟨wq, hq, hq', hn⟩ => ?_
  have h13 : Still Γ w1 w4 := h2.trans hΓ (h3.trans hΓ h4)
  have h04 : Still Γ w w4 := h1.trans hΓ h13
  have hpend4 : w4.sess.pend = id := h04.pend.trans hpend
  refine Body.bind hΓ (body_insertRow hΓ anyError_faults trivial fun held hsub hkeys s =>
    hA.leave _ _ _ (respects_addVisibilityAction (hkeys _ List.mem_cons_self)
      (hkeys _ (List.mem_cons_of_mem _ List.mem_cons_self)) (hsub (h04.held hlock))))
    fun _ w5 h5 hi => Body.ret hΓ ⟨⟨rfl, rfl, rfl⟩, ?_, ?_⟩
  · have h05 : Near Γ w w5 := h04.toNear.trans hΓ h5.toNear
    have hlog := decisionsOf_locked hA hlock h05
    refine ⟨h05.held hlock, (hi.settled hA (List.mem_cons_of_mem _ List.mem_cons_self)
      fun s hs => ?_).toFree, fun b hb => hn b ?_, fun b hb => hdiffers b ?_,
      ⟨now1, s1, hgiven1, ?_, ?_⟩, now2, s2, hgiven2, ?_⟩
    · rw [hpend4] at hs
      exact hs
    · have h0q : Still Γ w wq := h1.trans hΓ (h2.trans hΓ (h3.trans hΓ hq))
      rw [view_of_id (h0q.pend.trans hpend)]
      rw [hlog, ← decisionsOf_locked hA hlock h0q.toNear] at hb
      exact (List.mem_filter.mp hb).1
    · rw [latestDecision, ← hlog]
      exact hb
    · rw [hs1]
      exact rely_locked hΓ (h1.held hlock) (h13.toNear.trans hΓ h5.toNear)
    · rw [hclock]
      exact Nat.le_trans hle1 h2.now
    · rw [hclock]
      exact hle2
  · rw [hi.pend, hpend4]
    rfl

/-! ## Calls -/

/-- A call of `set_review_visibility`. -/
structure VisibilityCall where
  actor : Actor
  review : Nat
  kind : VisibilityKind
  reason : String
  key : Uuid
  reauthenticatedAt : Option Time

def VisibilityCall.run (p : Platform) (c : VisibilityCall) :
    M (ManagementResult ReviewVisibilityAction) :=
  setReviewVisibility p c.actor c.review c.kind c.reason c.key c.reauthenticatedAt

/-- What the transaction of a call does to the log: nothing, or one decision. -/
inductive VisibilityEnd (Γ : Ctx Store Lock Exn Obs) (held : List Lock) (s0 : Store)
    (f : Store → Store) : Prop where
  | kept : (∀ s, VisibilityQuiet s (f s)) → VisibilityEnd Γ held s0 f
  | decided (a : ReviewVisibilityAction) : ReadyDecision Γ a held s0 →
      (∀ s, VisibilityQuiet (addVisibilityAction a s) (f s)) → VisibilityEnd Γ held s0 f

/-- The pending decision stays the one that the check allows. -/
theorem VisibilityEnd.near {f : Store → Store} (hA : Abides p Γ)
    (h : VisibilityEnd Γ w.sess.held w.db f) (hn : Near Γ w w') :
    VisibilityEnd Γ w'.sess.held w'.db f := by
  cases h with
  | kept h => exact .kept h
  | decided a hready h => exact .decided a (hready.near hA hn) h

theorem body_decideVisibility (hA : Abides p Γ) (hshow : ShowsDecisions Γ) (reason : String)
    (key : Uuid) (hlock : .row .review review ∈ w.sess.held) (hpend : w.sess.pend = id)
    (hopen : w.sess.frames ≠ []) {latest : Option ReviewVisibilityAction}
    (hlatest : latestDecision review w.db = latest)
    (hdiffers : ∀ b, latest = some b → b.kind ≠ kind) :
    Body Γ (decideVisibility actor review kind reason key latest) w
      (fun _ w' => VisibilityEnd Γ w'.sess.held w'.db w'.sess.pend) anyError := by
  have hΓ := hA.lawful
  refine Body.bind hΓ (body_createVisibilityAction hA hshow actor.pk reason key hlock hpend
    fun b hb => hdiffers b (hlatest.symm.trans hb)) fun a w1 h1 ⟨_, hready, hp1⟩ => ?_
  refine Body.bind hΓ (body_keeps hΓ (hA.permits [.adminAudit]) visibilityQuiet_composes
    (fun k hk _ f hf s => ?_) (fun Γ' hΓ' hp => safe_audit hΓ' hp _)
    (by rw [h1.frames]; exact hopen) no_locks) fun _ w2 h2 hp2 => Body.ret hΓ ?_
  · rw [List.mem_singleton.mp hk] at hf
    cases hf
    rfl
  · refine .decided a (hready.near hA h2.toNear) fun s => ?_
    have hquiet := hp2 s
    rw [hp1] at hquiet
    exact hquiet

/-- **SPECIFICATION** of the transaction of `set_review_visibility`. -/
theorem body_setReviewVisibility (hA : Abides p Γ) (hop : OperationalFaults Γ)
    (hshow : ShowsDecisions Γ) (actor : Actor) (review : Nat) (kind : VisibilityKind)
    (reason : String) (key : Uuid) (reauthenticatedAt : Option Time) (hpend : w.sess.pend = id)
    (hopen : w.sess.frames ≠ []) :
    Body Γ (setReviewVisibilityBody actor review kind reason key reauthenticatedAt) w
      (fun _ w' => VisibilityEnd Γ w'.sess.held w'.db w'.sess.pend) anyError := by
  have hΓ := hA.lawful
  refine Body.look hΓ (look_visibilityTarget hA hop hpend)
    fun r w1 h1 ⟨hpk, hlock⟩ => ?_
  rw [hpk]
  refine Body.look hΓ (look_fetch anyError_faults _) fun replay w2 h2 _ => ?_
  have quiet : ∀ {w' : World Store Lock Obs}, Still Γ w1 w' →
      VisibilityEnd Γ w'.sess.held w'.db w'.sess.pend := by
    intro w' hs
    refine .kept fun s => ?_
    rw [hs.pend, h1.pend, hpend]
    rfl
  cases replay with
  | some replay =>
      exact Body.look hΓ (look_raiseIf hΓ fun _ => trivial) fun _ w3 h3 _ =>
        Body.ret hΓ (quiet (h2.trans hΓ h3))
  | none =>
      refine Body.look hΓ (look_fetch anyError_faults _) fun latest w3 h3 hlatest => ?_
      have h13 : Still Γ w1 w3 := h2.trans hΓ h3
      have h03 : Still Γ w w3 := h1.trans hΓ h13
      have hpend3 : w3.sess.pend = id := h03.pend.trans hpend
      rw [view_of_id hpend3] at hlatest
      have decide' : (∀ b, latest = some b → b.kind ≠ kind) →
          Body Γ (decideVisibility actor review kind reason key latest) w3
            (fun _ w' => VisibilityEnd Γ w'.sess.held w'.db w'.sess.pend) anyError :=
            fun hdiffers =>
        body_decideVisibility hA hshow reason key (h13.held hlock) hpend3
          (by rw [h03.frames]; exact hopen) hlatest.symm hdiffers
      cases latest with
      | none => exact decide' fun _ hb => nomatch hb
      | some b =>
          by_cases hsame : b.kind = kind
          · show Body Γ (if b.kind == kind then _ else _) w3 _ _
            rw [if_pos (beq_iff_eq.mpr hsame)]
            exact Body.ret hΓ (quiet h13)
          · show Body Γ (if b.kind == kind then _ else _) w3 _ _
            rw [if_neg fun hb => hsame (beq_iff_eq.mp hb)]
            refine decide' fun x hx => ?_
            cases hx
            exact hsame

/-- **CALL**: it is one transaction, and one that fails has committed nothing. -/
theorem wp_visibilityCall (hA : Abides p Γ) (hop : OperationalFaults Γ) (hshow : ShowsDecisions Γ)
    (hguar : ∀ held s f, Γ.leave held s (f s) → VisibilityEnd Γ held s f → Γ.guar held s (f s))
    (c : VisibilityCall) (hi : Idle w) :
    wp Γ (c.run p) (fun r w' => Idle w' ∧
      ∀ e, r = .error e → commitsOf w'.sess.hist = commitsOf w.sess.hist) w := by
  have hΓ := hA.lawful
  refine wp_bind ?_
  cases normalizeManagementReason p c.reason with
  | error e => exact ⟨hi, fun _ _ => rfl⟩
  | ok reason =>
      refine wp_transaction hΓ (F := anyError) (P := fun _ _ w' =>
          VisibilityEnd Γ w'.sess.held w'.db w'.sess.pend) hi (fun w' he => ?_) anyError_faults
        (fun e w3 _ hidle hc _ => ⟨hidle, fun _ _ => hc⟩) fun w' a w1 w2 _ _ hend he2 hleave =>
          ⟨fun _ => ⟨?_, publish_idle w2, fun _ he => nomatch he⟩, fun _ _ => trivial⟩
      · refine body_setReviewVisibility hA hop hshow _ _ _ _ _ _ (begin_pend_id hi he) ?_
        rw [World.begin_frames]
        exact List.cons_ne_nil _ _
      · refine hguar _ _ _ hleave ?_
        rw [he2.sess]
        have hnear := hend.near hA he2.still.toNear
        rw [he2.sess] at hnear
        exact hnear

/-! ## Replays -/

/-- The action of a key, for whoever looks it up. -/
def ActionOf (key : Uuid) (a : ReviewVisibilityAction) (s : Store) : Prop :=
  s.visibilityActions.find? (·.idempotencyKey == key) = some a

/-- The row of a key is found by the key, since keys are unique. -/
theorem VisibilityInv.actionOf (h : VisibilityInv T s) (ha : a ∈ s.visibilityActions) :
    ActionOf a.idempotencyKey a s := by
  rw [ActionOf]
  cases hfound : s.visibilityActions.find? (·.idempotencyKey == a.idempotencyKey) with
  | none =>
      have hne := List.find?_eq_none.mp hfound a ha
      exact absurd (beq_self_eq_true _) hne
  | some b =>
      have hb := List.mem_of_find?_eq_some hfound
      have hkey : b.idempotencyKey = a.idempotencyKey := by
        have hp := List.find?_some hfound
        exact beq_iff_eq.mp hp
      rw [List.inj_on_of_nodup_map h.keys hb ha hkey]

/-- It stays the action of the key, whatever is decided later. -/
theorem ActionOf.onward {key : Uuid} (h : ActionOf key a s)
    (hlog : s.visibilityActions <+: s'.visibilityActions) : ActionOf key a s' := by
  obtain ⟨rest, hrest⟩ := hlog
  rw [ActionOf, ← hrest, List.find?_append, show s.visibilityActions.find? _ = some a from h]
  rfl

/-- The reauthentication is not of the future and not older than the window. -/
def reauthenticatedSince (reauthenticatedAt : Option Time) (now : Time) : Bool :=
  reauthenticatedAt.any fun t => !(decide (now < t) || decide (t + REAUTH_WINDOW < now))

/-- The checks before a decision as they stand at one moment, in their order: whether each is
    passed, and what it raises if not. -/
def visibilityChecks (actor : Actor) (review : Nat) (kind : VisibilityKind)
    (reauthenticatedAt : Option Time) (now : Time) (s : Store) : List (Bool × Exn) :=
  [(reauthenticatedSince reauthenticatedAt now,
      .managementError "recent reauthentication required"),
   (s.reviews.any (·.pk == review), .managementNotFound "management target not found"),
   (!(!actor.isActive || !actor.isStaff || !actor.hasPerm kind.codename),
      .managementDenied "management permission denied"),
   (s.scopeGrants.any fun g => g.staff == actor.pk && g.codename == kind.codename
      && g.revokedAt.isNone && g.targets .review review,
      .managementNotFound "management target not found"),
   (s.reports.any (·.targetReview == some review),
      .managementNotFound "management target not found")]

/-- What the first check that is not passed raises. -/
def firstRefusal : List (Bool × Exn) → Option Exn
  | [] => none
  | (passed, e) :: rest => if passed then firstRefusal rest else some e

/-- One of the checks is not passed at some moment and raises `e`; where there is one moment
    only, it is the first of them. -/
def RefusedBy (R : Time → Store → Prop) (checks : Time → Store → List (Bool × Exn)) (e : Exn) :
    Prop :=
  (Sometime R fun now s => (false, e) ∈ checks now s) ∧
    Once R fun now s => firstRefusal (checks now s) = some e

/-- All checks are passed, where there is one moment only. -/
def Passed (R : Time → Store → Prop) (checks : Time → Store → List (Bool × Exn)) : Prop :=
  Once R fun now s => firstRefusal (checks now s) = none

/-- The checks that a call of `set_review_visibility` meets. -/
def VisibilityCall.checks (c : VisibilityCall) : Time → Store → List (Bool × Exn) :=
  visibilityChecks c.actor c.review c.kind c.reauthenticatedAt

/-- The answers to a call whose key has an action, over the moments `R`: the action, if it
    is the one asked for, and otherwise the conflict, unless one of the checks before that,
    or the database, fails it. -/
inductive ReplayAnswer (p : Platform) (c : VisibilityCall) (a : ReviewVisibilityAction)
    (R : Time → Store → Prop) (F : Exn → Prop) :
    Except Exn (Option (ManagementResult ReviewVisibilityAction)) → Prop where
  | replayed {reason : String} : normalizeManagementReason p c.reason = .ok reason →
      Passed R c.checks → a.review = c.review → a.kind = c.kind →
      ReplayAnswer p c a R F (.ok (some ⟨a, false⟩))
  | conflict {reason : String} : normalizeManagementReason p c.reason = .ok reason →
      Passed R c.checks → a.review ≠ c.review ∨ a.kind ≠ c.kind →
      ReplayAnswer p c a R F (.error (.managementConflict "management replay does not match"))
  | unreasonable {e : Exn} : normalizeManagementReason p c.reason = .error e →
      ReplayAnswer p c a R F (.error e)
  | refused {reason : String} {e : Exn} : normalizeManagementReason p c.reason = .ok reason →
      RefusedBy R c.checks e → ReplayAnswer p c a R F (.error e)
  | failed {e : Exn} : F e → ReplayAnswer p c a R F (.error e)

/-- What such a call answers when it has the database `s` to itself, at the time `now`. -/
def visibilityReplay (p : Platform) (c : VisibilityCall) (a : ReviewVisibilityAction)
    (now : Time) (s : Store) : Except Exn (Option (ManagementResult ReviewVisibilityAction)) := do
  let _ ← normalizeManagementReason p c.reason
  match firstRefusal (c.checks now s) with
  | some e => .error e
  | none =>
      if a.review = c.review ∧ a.kind = c.kind then .ok (some ⟨a, false⟩)
      else .error (.managementConflict "management replay does not match")

/-- With one moment there is one answer. -/
theorem ReplayAnswer.eq {c : VisibilityCall} {now : Time}
    {r : Except Exn (Option (ManagementResult ReviewVisibilityAction))}
    (h : ReplayAnswer p c a (fun t' s' => t' = now ∧ s' = s) (fun _ => False) r) :
    r = visibilityReplay p c a now s := by
  have honly : ∀ t' s', (t' = now ∧ s' = s) ↔ t' = now ∧ s' = s := fun _ _ => Iff.rfl
  rw [visibilityReplay]
  cases h with
  | replayed hreason hpassed hreview hkind =>
      have hnone : firstRefusal (c.checks now s) = none := hpassed now s honly
      rw [hreason]
      show _ = match firstRefusal (c.checks now s) with | some e => _ | none => _
      rw [hnone]
      exact (if_pos ⟨hreview, hkind⟩).symm
  | conflict hreason hpassed hne =>
      have hnone : firstRefusal (c.checks now s) = none := hpassed now s honly
      rw [hreason]
      show _ = match firstRefusal (c.checks now s) with | some e => _ | none => _
      rw [hnone]
      refine (if_neg fun hsame => ?_).symm
      rcases hne with hne | hne
      · exact hne hsame.1
      · exact hne hsame.2
  | unreasonable he =>
      rw [he]
      rfl
  | refused hreason hrefused =>
      have hsome := hrefused.2 now s honly
      rw [hreason]
      show _ = match firstRefusal (c.checks now s) with | some e => _ | none => _
      rw [show firstRefusal (c.checks now s) = some _ from hsome]
  | failed hf => exact False.elim hf

section Replays

variable {R : Time → Store → Prop} {F G : Exn → Prop}

/-- The reauthentication is compared with one reading of the clock. -/
theorem finds_requireReauthentication {now : Time} (hG : reauthenticatedSince reauthenticatedAt
      now = false → G (.managementError "recent reauthentication required")) :
    Finds R F (requireReauthentication reauthenticatedAt now)
      (fun _ => reauthenticatedSince reauthenticatedAt now = true) G := by
  cases reauthenticatedAt with
  | none => exact Finds.raise (hG rfl)
  | some t =>
      refine (finds_raiseIf fun hstale => hG ?_).mono (fun _ hfresh => ?_) fun _ he => he
      · rw [reauthenticatedSince, Option.any_some, hstale]
        rfl
      · rw [reauthenticatedSince, Option.any_some, hfresh]
        rfl

/-- The locked row of the review, or none at some moment. -/
theorem finds_reviewRow (hop : Operational F)
    (hF : ∀ e, F e → G e) (hG : (Sometime R fun _ s => s.reviews.any (·.pk == review) = false) →
      G (.managementNotFound "management target not found")) :
    Finds R F (Prog.tryCatch (getForUpdate .review (·.reviews) (·.pk) (·.pk == review)) fun
      | .doesNotExist _ => raise (.managementNotFound "management target not found")
      | e => raise e)
      (fun r => r.pk = review ∧ Sometime R fun _ s => s.reviews.any (·.pk == review) = true) G := by
  refine finds_exceptMissing hop ((finds_getForUpdate _ _ _ _ fun x y hx hy => ?_).mono ?_
    fun _ he => he) hF hG
  · rw [beq_iff_eq] at hx hy
    exact hx.trans hy.symm
  · rintro r ⟨hpk, hthere⟩
    exact ⟨beq_iff_eq.mp hpk, hthere⟩

/-- **CHECKS**: a target is found where all checks passed, and an error is one of theirs. -/
theorem finds_visibilityTarget (hop : Operational F) :
    Finds R F (visibilityTarget actor review kind reauthenticatedAt) (fun r => r.pk = review ∧
        Passed R (visibilityChecks actor review kind reauthenticatedAt))
      (fun e => F e ∨ RefusedBy R (visibilityChecks actor review kind reauthenticatedAt) e) := by
  have hF : ∀ e, F e →
      F e ∨ RefusedBy R (visibilityChecks actor review kind reauthenticatedAt) e := fun _ => Or.inl
  -- the reauthentication, by one reading of the clock
  refine Finds.bind (finds_clockTimestamp hF) ?_
  rintro now0 ⟨s0, hs0⟩
  refine Finds.bind (finds_requireReauthentication fun hstale => Or.inr ?_) fun _ hfresh => ?_
  · have hnot : Sometime R fun now _ => reauthenticatedSince reauthenticatedAt now = false :=
      ⟨now0, s0, hs0, hstale⟩
    refine ⟨⟨now0, s0, hs0, ?_⟩, fun now s honly => ?_⟩
    · show _ ∈ visibilityChecks actor review kind reauthenticatedAt now0 s0
      simp [visibilityChecks, hstale]
    · simp [visibilityChecks, firstRefusal, hnot.once now s honly]
  have h1 : Sometime R fun now _ => reauthenticatedSince reauthenticatedAt now = true :=
    ⟨now0, s0, hs0, hfresh⟩
  -- the row of the review
  refine Finds.bind (finds_reviewRow hop hF fun hgone => Or.inr ⟨?_, fun now s honly => ?_⟩)
    fun r ⟨hpk, h2⟩ => ?_
  · obtain ⟨now, s, hs, hgone⟩ := hgone
    refine ⟨now, s, hs, ?_⟩
    simp [visibilityChecks, hgone]
  · simp [visibilityChecks, firstRefusal, h1.once now s honly, hgone.once now s honly]
  rw [hpk]
  -- the permission, and the grant for this review
  refine Finds.bind (P := fun _ =>
    (!actor.isActive || !actor.isStaff || !actor.hasPerm kind.codename) = false ∧
    Sometime R fun _ s => (s.scopeGrants.any fun g => g.staff == actor.pk &&
      g.codename == kind.codename && g.revokedAt.isNone && g.targets .review review) = true)
    ?_ fun _ ⟨h3, h4⟩ => ?_
  · refine Finds.bind (finds_raiseIf fun hdenied => Or.inr ⟨⟨now0, s0, hs0, ?_⟩,
      fun now s honly => ?_⟩) fun _ h3 => ?_
    · simp [visibilityChecks, hdenied]
    · simp [visibilityChecks, firstRefusal, h1.once now s honly, h2.once now s honly, hdenied]
    · refine Finds.bind (finds_fetch hF _) ?_
      rintro _ ⟨now, s, hs, rfl⟩
      cases hgrant : s.scopeGrants.find? fun g => g.staff == actor.pk &&
          g.codename == kind.codename && g.revokedAt.isNone && g.targets .review review with
      | some g =>
          have hq := List.find?_some hgrant
          exact Finds.ret ⟨h3, now, s, hs,
            List.any_eq_true.mpr ⟨g, List.mem_of_find?_eq_some hgrant, hq⟩⟩
      | none =>
          have hnone : Sometime R fun _ s => (s.scopeGrants.any fun g => g.staff == actor.pk &&
              g.codename == kind.codename && g.revokedAt.isNone &&
              g.targets .review review) = false :=
            ⟨now, s, hs, List.any_eq_false.mpr (List.find?_eq_none.mp hgrant)⟩
          refine Finds.raise (Or.inr ⟨⟨now, s, hs, ?_⟩, fun now s honly => ?_⟩)
          · obtain ⟨-, -, -, hq⟩ := hnone
            simp [visibilityChecks, List.any_eq_false.mpr (List.find?_eq_none.mp hgrant)]
          · simp [visibilityChecks, firstRefusal, h1.once now s honly, h2.once now s honly, h3,
              hnone.once now s honly]
  refine Finds.bind (finds_fetch hF _) ?_
  -- the report of the review
  rintro _ ⟨now', s', hs', rfl⟩
  refine Finds.bind (finds_raiseIf fun hnot => Or.inr ⟨⟨now', s', hs', ?_⟩,
    fun now s honly => ?_⟩) fun _ hreported => Finds.ret ⟨hpk, fun now s honly => ?_⟩
  · rw [Bool.not_eq_true'] at hnot
    simp [visibilityChecks, hnot]
  · obtain ⟨rfl, rfl⟩ := (honly now' s').mp hs'
    rw [Bool.not_eq_true'] at hnot
    simp [visibilityChecks, firstRefusal, h1.once now' s' honly, h2.once now' s' honly, h3,
      h4.once now' s' honly, hnot]
  · obtain ⟨rfl, rfl⟩ := (honly now' s').mp hs'
    rw [Bool.not_eq_false'] at hreported
    simp [visibilityChecks, firstRefusal, h1.once now' s' honly, h2.once now' s' honly, h3,
      h4.once now' s' honly, hreported]

/-- **REPLAY**: the call reads only, and what it answers rests on what it saw. -/
theorem reads_visibilityReplay (hop : Operational F)
    {c : VisibilityCall} (h : ∀ now s, R now s → ActionOf c.key a s) :
    Reads R F (c.run p >>= fun r => (return some r : M (Option _))) (ReplayAnswer p c a R F) := by
  refine Reads.andThen (Reads.andThen ?_)
  cases hreason : normalizeManagementReason p c.reason with
  | error e => exact .unreasonable hreason
  | ok reason =>
      have hbody : Finds R F (setReviewVisibilityBody c.actor c.review c.kind reason c.key
          c.reauthenticatedAt) (fun r => Passed R c.checks ∧ r = ⟨a, false⟩ ∧
            a.review = c.review ∧ a.kind = c.kind)
          (fun e => (F e ∨ RefusedBy R c.checks e) ∨ Passed R c.checks ∧
            e = .managementConflict "management replay does not match" ∧
            (a.review ≠ c.review ∨ a.kind ≠ c.kind)) := by
        refine Finds.bind ((finds_visibilityTarget hop).mono (fun _ h => h) fun _ => Or.inl)
          fun r ⟨hpk, hpassed⟩ => ?_
        rw [hpk]
        refine Finds.bind (finds_fetch (fun _ he => Or.inl (Or.inl he)) _) ?_
        rintro _ ⟨now, s, hs, rfl⟩
        rw [show s.visibilityActions.find? _ = some a from h now s hs]
        refine Finds.bind (finds_raiseIf fun hne => Or.inr ⟨hpassed, rfl, ?_⟩) fun _ hsame =>
          Finds.ret ⟨hpassed, rfl, ?_⟩
        · rw [Bool.or_eq_true, bne_iff_ne, bne_iff_ne] at hne
          exact hne
        · rw [Bool.or_eq_false_iff, bne_eq_false_iff_eq, bne_eq_false_iff_eq] at hsame
          exact hsame
      show Reads R F (atomic (setReviewVisibilityBody c.actor c.review c.kind reason c.key
        c.reauthenticatedAt)) _
      refine Reads.mono ?_ (Finds.atomic (fun _ he => Or.inl (Or.inl he)) hbody)
      rintro (e | r) hr
      · rcases hr with (hf | hrefused) | ⟨hpassed, rfl, hne⟩
        · exact .failed hf
        · exact .refused hreason hrefused
        · exact .conflict hreason hpassed hne
      · obtain ⟨hpassed, rfl, hreview, hkind⟩ := hr
        exact .replayed hreason hpassed hreview hkind

end Replays

/-! ## Every run -/

/-- Any transactions that follow the locking rules and leave the log alone. -/
def VisibilityForeign (p : Platform) (m : M Unit) : Prop :=
  Top (market p ⟨fun _ _ => True, fun _ => VisibilityQuiet⟩ (fun _ _ _ => True)
    fun _ _ _ => True) m

/-- What a session runs: a call, or something else. -/
inductive VisibilityOp (p : Platform) where
  | decide (c : VisibilityCall)
  | other (m : M Unit) (h : VisibilityForeign p m)

def VisibilityOp.run : VisibilityOp p → M (Option (ManagementResult ReviewVisibilityAction))
  | .decide c => do
      let r ← c.run p
      return some r
  | .other m _ => do
      m
      return none

/-- At the moments of a decision, all earlier ones are of a time that has come. -/
def Deciding (T : Time) (v : Obs) (now : Time) (s : Store) : Prop :=
  match v with
  | .deciding _ => now ≤ T ∧ ∀ a ∈ s.visibilityActions, a.createdAt ≤ now
  | _ => True

/-- The context of sessions that keep the log as it must be, up to the time `T`. -/
def visibilityCtx (p : Platform) (T : Time) : Ctx Store Lock Exn Obs :=
  market p ⟨fun _ _ => True, fun _ s s' => VisibilityInv T s → DecisionStep T s s'⟩ (Deciding T)
    fun _ _ _ => True

/-- The sessions of the decisions keep the discipline of the locks. -/
theorem visibilityCtx_abides (p : Platform) (T : Time) : Abides p (visibilityCtx p T) :=
  market_abides ⟨fun _ => trivial, fun _ _ _ _ _ => trivial⟩ fun _ _ => trivial

/-- **INSERT**: a decision that is ready is new. -/
theorem ReadyDecision.new {held : List Lock} (h : ReadyDecision (visibilityCtx p T) a held s)
    (hi : VisibilityInv T s) : NewDecision T a s := by
  obtain ⟨now1, s1, ⟨-, htimed⟩, hrely, hle1⟩ := h.before
  obtain ⟨now2, s2, ⟨hT, -⟩, hle2⟩ := h.after
  refine ⟨Nat.le_trans hle2 hT, fun b hb hkey => ?_, fun b hb => ⟨?_, h.newest b hb⟩,
    fun b hb => h.differs b ?_⟩
  · have hfree : s.visibilityActions.any (·.idempotencyKey == a.idempotencyKey) = false :=
      h.keyFree.free
    exact List.any_eq_false.mp hfree b hb (beq_iff_eq.mpr hkey)
  · -- the log of the locked review has not changed since the moment before the reading
    have hlog : decisionsOf a.review s = decisionsOf a.review s1 :=
      hrely.2 _ (List.mem_singleton.mpr rfl)
    rw [hlog] at hb
    exact Nat.le_trans (htimed b (List.mem_filter.mp hb).1) hle1
  · rw [latestDecision_eq (hi.order a.review)]
    exact hb

/-- The rest of the market joins in, as long as it is quiet about the decisions. -/
theorem visibilityForeign_joins (p : Platform) {step : List Lock → Store → Store → Prop}
    (given : Obs → Nat → Store → Prop)
    (h : ∀ held s s', VisibilityQuiet s s' → step held s s') :
    Joins (market p ⟨fun _ _ => True, fun _ => VisibilityQuiet⟩ (fun _ _ _ => True)
        fun _ _ _ => True)
      (market p ⟨fun _ _ => True, fun _ => VisibilityQuiet⟩ (fun _ _ _ => True)
        fun _ _ _ => True)
      (market p ⟨fun _ _ => True, step⟩ given fun _ _ _ => True) where
  deferred := ⟨rfl, rfl⟩
  fault _ h := ⟨h, h⟩
  rely _ _ _ h := ⟨h, h⟩
  guar held s s' hq _ := ⟨hq.1, trivial, h held s s' hq.2.2⟩
  given _ _ _ _ := ⟨trivial, trivial⟩
  shown _ _ _ h _ := h

/-- What an operation ends with: a call that fails has committed nothing. -/
def VisibilityPost (op : VisibilityOp p)
    (r : Except Exn (Option (ManagementResult ReviewVisibilityAction)))
    (w : World Store Lock Obs) : Prop :=
  ∀ c, op = .decide c → ∀ e, r = .error e → commitsOf w.sess.hist = []

/-- The operations, in a context of the market that may commit decisions. -/
theorem wp_visibilityOp {step : List Lock → Store → Store → Prop}
    {given : Obs → Nat → Store → Prop}
    (hquiet : ∀ held s s', VisibilityQuiet s s' → step held s s')
    (hend : ∀ held s f, VisibilityEnd (market p ⟨fun _ _ => True, step⟩ given
      fun _ _ _ => True) held s f → step held s (f s)) (op : VisibilityOp p) (hi : Idle w)
    (hhist : commitsOf w.sess.hist = []) :
    wp (market p ⟨fun _ _ => True, step⟩ given fun _ _ _ => True) op.run (VisibilityPost op) w := by
  cases op with
  | decide c =>
      have hA : Abides p (market p ⟨fun _ _ => True, step⟩ given fun _ _ _ => True) :=
        market_abides ⟨fun _ => trivial, fun _ _ _ _ _ => trivial⟩ fun _ _ => trivial
      refine wp_bind (wp_mono ?_ (wp_visibilityCall hA (fun _ h => h) (fun _ _ _ => trivial)
        (fun held s f hleave h => ⟨hleave.1, hleave.2, hend held s f h⟩) c hi))
      rintro (e | r) w' ⟨-, hc⟩
      · exact fun _ _ e' he => (hc e rfl).trans hhist
      · exact fun _ _ _ he => nomatch he
  | other m hm =>
      refine wp_bind (wp_mono ?_ (hm.within (visibilityForeign_joins p given hquiet) w hi))
      rintro (e | r) w' -
      · exact fun _ hop => nomatch hop
      · exact fun _ hop => nomatch hop

/-- The commit of a decision is a step that the invariant survives. -/
theorem VisibilityEnd.step {held : List Lock} {f : Store → Store}
    (h : VisibilityEnd (visibilityCtx p T) held s f) (hi : VisibilityInv T s) :
    DecisionStep T s (f s) := by
  cases h with
  | kept h => exact .kept (h s)
  | decided a hready h => exact .decided a (hready.new hi) (h s)

section Runs

variable {ι : Type} [DecidableEq ι] {ops : ι → VisibilityOp p} {now : Time}
  {c c' : Config ι Store Lock Exn Obs (Option (ManagementResult ReviewVisibilityAction))}

omit [DecidableEq ι] in
/-- The sessions fit the database together. -/
theorem visibilityCtx_fits (p : Platform) (T : Time) :
    Fits (postgres fun _ _ => False) (fun _ : ι => visibilityCtx p T) :=
  market_fits p _ (fun _ => ⟨fun _ => trivial, fun _ _ _ _ _ => trivial⟩) _ _

omit [DecidableEq ι] in
/-- Every session starts supported, up to the time `T`. -/
theorem visibility_supported (T : Time) : Supported (fun _ : ι => visibilityCtx p T)
    (fun i r w => VisibilityPost (ops i) r w) (Config.start s now fun i => (ops i).run) :=
  supported_start (fun _ => (visibilityCtx_abides p T).lawful) fun i =>
    wp_visibilityOp (fun _ _ _ hq _ => .kept hq) (fun _ _ _ hend hi => hend.step hi) (ops i)
      ⟨rfl, rfl, rfl⟩ rfl

/-- The log of a configuration in which all decisions were made at moments as given. -/
theorem visibilityInv_seen (h : VisibilityInv now s)
    (hr : Reached s now (fun i => (ops i).run) c) (hseen : AllSee (fun _ => Deciding c.now) c) :
    VisibilityInv c.now c.db :=
  run_onward (visibilityCtx_fits p c.now) (visibility_supported c.now)
    (fun _ _ _ h => False.elim h) (fun _ _ _ _ hi hg => (hg.2.2 hi).inv hi) (Reaches.refl _ _)
    hr hseen (h.later (now_reaches hr))

/-- **RUN**: the log of every configuration reached, up to its time. -/
theorem visibilityInv_reached (h : VisibilityInv now s)
    (hr : Reached s now (fun i => (ops i).run) c) : VisibilityInv c.now c.db := by
  refine visibilityInv_seen h hr (allSee_by_time (P := Deciding) (fun T T' v t s hT hd => ?_)
    (fun d hd hseen v => ?_) hr)
  · cases v with
    | deciding review => exact ⟨Nat.le_trans hd.1 hT, hd.2⟩
    | _ => trivial
  · cases v with
    | deciding review => exact ⟨Nat.le_refl _, (visibilityInv_seen h hd hseen).timed⟩
    | _ => trivial

/-- The context of sessions of which only the locking rules are asked. -/
def anyCtx (p : Platform) : Ctx Store Lock Exn Obs :=
  market p ⟨fun _ _ => True, fun _ _ _ => True⟩ (fun _ _ _ => True) fun _ _ _ => True

omit [DecidableEq ι] in
/-- Sessions that promise only the discipline fit the database. -/
theorem anyCtx_fits (p : Platform) :
    Fits (postgres fun _ _ => False) (fun _ : ι => anyCtx p) :=
  market_fits p _ (fun _ => ⟨fun _ => trivial, fun _ _ _ _ _ => trivial⟩) _ _

/-- They keep the discipline of the locks. -/
theorem anyCtx_abides (p : Platform) : Abides p (anyCtx p) :=
  market_abides ⟨fun _ => trivial, fun _ _ _ _ _ => trivial⟩ fun _ _ => trivial

omit [DecidableEq ι] in
/-- Every session starts supported, whatever the store. -/
theorem visibility_abiding : Supported (fun _ : ι => anyCtx p)
    (fun i r w => VisibilityPost (ops i) r w) (Config.start s now fun i => (ops i).run) :=
  supported_start (fun _ => (anyCtx_abides p).lawful) fun i =>
    wp_visibilityOp (fun _ _ _ _ => trivial) (fun _ _ _ _ => trivial) (ops i) ⟨rfl, rfl, rfl⟩ rfl

/-- **RUN**: the log only grows, so that its order is the order of the commits. -/
theorem visibilityLog_onward (hr : Reached s now (fun i => (ops i).run) c)
    (hr' : Reaches (postgres fun _ _ => False) c c') :
    c.db.visibilityActions <+: c'.db.visibilityActions :=
  run_onward (J := fun s => c.db.visibilityActions <+: s.visibilityActions) (anyCtx_fits p)
    visibility_abiding (fun _ _ _ h => False.elim h)
    (fun _ _ _ _ hj hg => hj.trans hg.1.1.visibilityActions) hr hr' (fun _ _ _ _ _ => trivial)
    List.prefix_rfl

/-- **RUN**: a call that begins when its key has an action. -/
theorem later_visibilityCall (h : VisibilityInv now s)
    (hr : Reached s now (fun i => (ops i).run) c) (ha : a ∈ c.db.visibilityActions) {i : ι}
    {call : VisibilityCall} (hop : ops i = .decide call) (hkey : call.key = a.idempotencyKey)
    (hfresh : c.prog i = (ops i).run) (hsess : c.sess i = {}) {F : Exn → Prop}
    (hF : Operational F)
    (hr' : Reaches (failing (postgres fun _ _ => False) F) c c') :
    (∀ d, Step (failing (postgres fun _ _ => False) F) (some i) c' d → d.db = c'.db) ∧
    ∀ r, c'.prog i = Prog.ofAnswer r →
      ReplayAnswer p call a (Between (failing (postgres fun _ _ => False) F) c c') F r := by
  -- at every moment since then it is the action of the key
  have hsince : ∀ t d, Between (failing (postgres fun _ _ => False) F) c c' t d →
      ActionOf call.key a d := by
    rintro t d ⟨x, hx, -, -, rfl⟩
    have hlog := visibilityLog_onward hr (reaches_of_failing (D := postgres fun _ _ => False) hF hx)
    rw [hkey]
    exact ((visibilityInv_reached h hr).actionOf ha).onward hlog
  have hunwritten : Unwritten (c.sess i) := by
    rw [hsess]
    exact unwritten_idle
  refine reads_reached (fun _ => validateBalancedJournal_same rfl rfl) (fun _ he => he) hr'
    hunwritten ?_
  rw [hfresh, hop]
  exact reads_visibilityReplay hF hsince

end Runs

/-- The visibility of reviews, said of one configuration of a run. -/
structure VisibilityFolds {ι : Type} [DecidableEq ι] {p : Platform} (ops : ι → VisibilityOp p)
    (c : Config ι Store Lock Exn Obs (Option (ManagementResult ReviewVisibilityAction))) :
    Prop where
  alternate : ∀ n, ((decisionsOf n c.db).map (·.kind)).IsChain (· ≠ ·)
  keys : ∀ a ∈ c.db.visibilityActions, ∀ b ∈ c.db.visibilityActions,
    a.idempotencyKey = b.idempotencyKey → a = b
  onward : ∀ c', Reaches (postgres fun _ _ => False) c c' →
    c.db.visibilityActions <+: c'.db.visibilityActions
  listed : ∀ (queryset : List Review) (r : Review), r ∈ publicReviews c.db queryset ↔
    r ∈ queryset ∧ ∀ a, (decisionsOf r.pk c.db).getLast? = some a → a.kind ≠ .hide
  failed : ∀ i call e, ops i = .decide call → c.prog i = .raise e →
    commitsOf (c.sess i).hist = []
  replayed : ∀ a ∈ c.db.visibilityActions, ∀ i call, ops i = .decide call →
    call.key = a.idempotencyKey → c.prog i = (ops i).run → c.sess i = {} →
    ∀ F : Exn → Prop, Operational F →
    ∀ c', Reaches (failing (postgres fun _ _ => False) F) c c' →
      (∀ d, Step (failing (postgres fun _ _ => False) F) (some i) c' d → d.db = c'.db) ∧
      ∀ r, c'.prog i = Prog.ofAnswer r →
        ReplayAnswer p call a (Between (failing (postgres fun _ _ => False) F) c c') F r
  alone : ∀ a ∈ c.db.visibilityActions, ∀ call : VisibilityCall, call.key = a.idempotencyKey →
    ∀ ids now, Market.call (VisibilityOp.run (p := p) (.decide call)) ids now c.db =
      (visibilityReplay p call a now c.db, c.db)

/-- **VISIBILITY**: in every interleaving of calls of `set_review_visibility` and of
    transactions that leave the log of decisions alone, no two decisions in a row about a
    review are the same; a key has one action at most, and a call that begins once it has
    one changes nothing, and answers with the action if it is the one asked for and with the
    conflict otherwise, unless a check or the database fails it; and a review is listed
    unless the decision about it that was committed last hides it. -/
theorem visibility_folds {ι : Type} [DecidableEq ι] {p : Platform} {ops : ι → VisibilityOp p}
    {s : Store} {now : Time}
    {c : Config ι Store Lock Exn Obs (Option (ManagementResult ReviewVisibilityAction))}
    (h : VisibilityInv now s) (hr : Reached s now (fun i => (ops i).run) c) :
    VisibilityFolds ops c where
  alternate := (visibilityInv_reached h hr).alternate
  keys _ ha _ hb hkey :=
    List.inj_on_of_nodup_map (visibilityInv_reached h hr).keys ha hb hkey
  onward _ hr' := visibilityLog_onward hr hr'
  listed _ _ := mem_publicReviews (visibilityInv_reached h hr)
  failed i call e hop hraise := by
    obtain ⟨w, he, hpost⟩ := run_ended (anyCtx_fits p) visibility_abiding hr
      (fun _ _ _ _ _ => trivial) (i := i) (r := .error e) hraise
    have hhist : (c.sess i).hist = w.sess.hist := congrArg Session.hist he.sess
    rw [hhist]
    exact hpost call hop e rfl
  replayed _ ha _ _ hop hkey hfresh hsess _ hF _ hr' :=
    later_visibilityCall h hr ha hop hkey hfresh hsess hF hr'
  alone a ha x hkey ids now := by
    have hreads := reads_visibilityReplay (p := p) (a := a) (c := x)
      (R := fun t' s' => t' = now ∧ s' = c.db) (F := fun _ => False)
      (fun _ he => False.elim he) fun _ s' hs => by
        rw [hs.2, hkey]
        exact (visibilityInv_reached h hr).actionOf ha
    obtain ⟨hanswer, hdb⟩ := reads_call ids hreads ⟨rfl, rfl⟩
    exact Prod.ext hanswer.eq hdb

/-- A new log. -/
theorem VisibilityInv.of_empty (h : s.visibilityActions = []) : VisibilityInv T s := by
  have hlog : ∀ n, decisionsOf n s = [] := fun n => by rw [decisionsOf, h, List.filter_nil]
  refine ⟨fun a ha => ?_, ?_, fun n => ?_, fun n => ?_⟩
  · rw [h] at ha
    exact nomatch ha
  · rw [h]
    exact List.nodup_nil
  · rw [hlog]
    exact List.Pairwise.nil
  · rw [hlog]
    exact List.isChain_nil

/-- A reported review, and a member of staff who may hide and restore it. -/
def reportedReview : Store where
  reviews := [{ pk := 5, trade := 1, author := 2, subject := 1, rating := 1, body := "bad" }]
  reports := [{ pk := 1, reporter := 1, targetType := .review, targetReview := some 5,
                context := .review, reason := "unfair", createdAt := 0 }]
  scopeGrants := [newGrant 1 9 8 "hide_review" .review 5, newGrant 2 9 8 "restore_review" .review 5]

/-- Two decisions, and the first one again. -/
def hideRestoreHide (i : Fin 3) : VisibilityOp plainPlatform :=
  .decide ⟨⟨8, true, true, false, fun _ => true, false⟩, 5, if i = 1 then .restore else .hide,
    "as the report says", if i = 1 then 2 else 1, some 1000⟩

/-- The review is listed again, whatever is replayed. -/
theorem visibility_folds_restored :
    ∃ c, Reached reportedReview 1000 (fun i => (hideRestoreHide i).run) c ∧
      (decisionsOf 5 c.db).map (·.kind) = [.hide, .restore] ∧
      VisibilityFolds hideRestoreHide c := by
  have hplay : (play validateBalancedJournal [.run 0 100 id, .run 1 100 id, .run 2 100 id]
      (Config.start (V := Obs) reportedReview 1000 fun i => (hideRestoreHide i).run)).map
        (fun d => (decisionsOf 5 d.db).map (·.kind)) = some [.hide, .restore] := by
    decide +kernel
  obtain ⟨c, hr, hkinds⟩ := reaches_of_play (D := postgres fun _ _ => False)
    (f := fun d => _) hplay
  exact ⟨c, hr, hkinds, visibility_folds (VisibilityInv.of_empty rfl) hr⟩

end Market
