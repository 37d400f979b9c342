import Marketplace.LifecycleRuns
import Marketplace.Reviews

/-! # Reviews in every run

    A review is written under the lock of its trade, after a look at the status of the
    trade; a completed trade stays completed.  So a review rests on a completed trade for
    ever, by one of its parties about the other, and each of them writes one. -/

namespace Market

open TxnProgram TxnInterleaving TxnLogic TxnProtection TxnSoundness TxnBody TxnFrames
  TxnInvariants TxnSchedule

variable {p : Platform} {Γ : Ctx Store Lock Exn Obs} {w w' : World Store Lock Obs}
  {s s' : Store} {r : Review} {t : Trade} {F : Exn → Prop}

/-! ## What a review is like -/

/-- A text that `_normalize_review_body` may have returned. -/
structure GoodBody (p : Platform) (body : String) : Prop where
  normalized : p.normalizeNfc body = body
  length : 1 ≤ body.length ∧ body.length ≤ 1000
  printable : ∀ c ∈ body.toList, 32 ≤ c.toNat ∧ ¬ (127 ≤ c.toNat ∧ c.toNat ≤ 159)

/-- When the normalization accepts a text. -/
theorem normalizeReviewBody_eq {raw body : String} :
    normalizeReviewBody p raw = .ok body ↔ p.normalizeNfc (strip raw) = body ∧
      (1 ≤ body.length ∧ body.length ≤ 1000) ∧
      ∀ c ∈ body.toList, 32 ≤ c.toNat ∧ ¬ (127 ≤ c.toNat ∧ c.toNat ≤ 159) := by
  rw [normalizeReviewBody]
  generalize p.normalizeNfc (strip raw) = text
  have hcontrol : (text.toList.any fun c => decide (c.toNat < 32) ||
      (decide (127 ≤ c.toNat) && decide (c.toNat ≤ 159))) = false ↔
      ∀ c ∈ text.toList, 32 ≤ c.toNat ∧ ¬ (127 ≤ c.toNat ∧ c.toNat ≤ 159) := by
    rw [List.any_eq_false]
    refine forall₂_congr fun c _ => ?_
    simp
  split
  · next hlength =>
      refine ⟨fun h => (nomatch h), fun ⟨htext, hlength', _⟩ => ?_⟩
      rw [← htext] at hlength'
      rw [Bool.or_eq_true, decide_eq_true_iff, decide_eq_true_iff] at hlength
      omega
  · next hlength =>
      rw [Bool.or_eq_true, decide_eq_true_iff, decide_eq_true_iff] at hlength
      split
      · next hany =>
          refine ⟨fun h => (nomatch h), fun ⟨htext, _, hprintable⟩ => ?_⟩
          rw [← htext] at hprintable
          rw [hcontrol.mpr hprintable] at hany
          exact nomatch hany
      · next hany =>
          constructor
          · intro h
            cases h
            exact ⟨rfl, by omega, hcontrol.mp (Bool.eq_false_iff.mpr hany)⟩
          · rintro ⟨rfl, -, -⟩
            rfl

/-- A normalized body is good: normalizing it again changes nothing. -/
theorem goodBody_of_normalize (hnfc : ∀ x, p.normalizeNfc (p.normalizeNfc x) = p.normalizeNfc x)
    {raw body : String} (h : normalizeReviewBody p raw = .ok body) : GoodBody p body := by
  obtain ⟨htext, hlength, hprintable⟩ := normalizeReviewBody_eq.mp h
  refine ⟨?_, hlength, hprintable⟩
  rw [← htext]
  exact hnfc _

/-- The review rests on the trade: a completed standard one, and author and subject are its
    two parties. -/
structure RestsOn (r : Review) (t : Trade) : Prop where
  trade : t.pk = r.trade
  kind : t.kind = .standard
  status : t.status = .completed
  parties : (r.author = t.seller ∧ t.buyer = some r.subject) ∨
    (t.buyer = some r.author ∧ r.subject = t.seller)
  distinct : r.author ≠ r.subject

/-- The two ways in which a trade gives its reviewer a subject. -/
theorem reviewSubject_eq {actor subject : Nat} (h : reviewSubject t actor = some subject) :
    t.kind = .standard ∧ t.status = .completed ∧
      ((actor = t.seller ∧ t.buyer = some subject) ∨
        (t.buyer = some actor ∧ subject = t.seller)) := by
  rw [reviewSubject] at h
  split at h
  · next buyer hkind hstatus hbuyer =>
      refine ⟨hkind, hstatus, ?_⟩
      split at h
      · next hseller =>
          cases h
          exact Or.inl ⟨beq_iff_eq.mp hseller, hbuyer⟩
      · split at h
        · next hactor =>
            cases h
            rw [hbuyer, beq_iff_eq.mp hactor]
            exact Or.inr ⟨rfl, rfl⟩
        · exact nomatch h
  · exact nomatch h

/-- The author of a review is allowed to write it. -/
theorem RestsOn.subject (h : RestsOn r t) : reviewSubject t r.author = some r.subject := by
  rw [reviewSubject, h.kind, h.status]
  rcases h.parties with ⟨hseller, hbuyer⟩ | ⟨hbuyer, hsubject⟩
  · rw [hbuyer, ← hseller]
    exact if_pos (beq_self_eq_true _)
  · have hne : ¬ (r.author == t.seller) = true := fun hb =>
      h.distinct ((beq_iff_eq.mp hb).trans hsubject.symm)
    rw [hbuyer, hsubject]
    show (if r.author == t.seller then some r.author else
      if r.author == r.author then some t.seller else none) = _
    rw [if_neg hne, if_pos (beq_self_eq_true _)]

/-- The reviews of a store and the trades they rest on. -/
structure ReviewInv (p : Platform) (s : Store) : Prop where
  trades : TradeInv s
  rests : ∀ r ∈ s.reviews, ∃ t ∈ s.trades, RestsOn r t
  once : (s.reviews.map fun r => (r.trade, r.author)).Nodup
  valid : ∀ r ∈ s.reviews, 0 < r.trade ∧ (1 ≤ r.rating ∧ r.rating ≤ 5) ∧ GoodBody p r.body

/-- A review is found by its trade and its author, since the pair is unique. -/
theorem ReviewInv.find (h : ReviewInv p s) (hr : r ∈ s.reviews) :
    reviewOf r.trade r.author s = some r := by
  rw [reviewOf]
  cases hfound : s.reviews.find? fun x => x.trade == r.trade && x.author == r.author with
  | none =>
      have hne := List.find?_eq_none.mp hfound r hr
      rw [beq_self_eq_true, beq_self_eq_true] at hne
      exact absurd rfl hne
  | some x =>
      have hx := List.mem_of_find?_eq_some hfound
      have hkeys : (x.trade == r.trade && x.author == r.author) = true := by
        have hp := List.find?_some hfound
        exact hp
      rw [Bool.and_eq_true, beq_iff_eq, beq_iff_eq] at hkeys
      rw [List.inj_on_of_nodup_map h.once hx hr (Prod.ext hkeys.1 hkeys.2)]

/-! ## Steps -/

/-- What a commit may do: it takes the trades onward and leaves the reviews, or adds one that
    rests on a trade and is the first of its author. -/
inductive ReviewStep (p : Platform) (s s' : Store) : Prop where
  | trades : TradeInv s' → TradesOnward s s' → s'.reviews = s.reviews → ReviewStep p s s'
  | added (r : Review) (t : Trade) : t ∈ s.trades → RestsOn r t →
      (r.trade, r.author) ∉ s.reviews.map (fun r => (r.trade, r.author)) →
      0 < r.trade ∧ (1 ≤ r.rating ∧ r.rating ≤ 5) ∧ GoodBody p r.body → s' = addReview r s →
      ReviewStep p s s'

/-- What a review rests on stays. -/
theorem RestsOn.onward (h : RestsOn r t) (ht : t ∈ s.trades) (ho : TradesOnward s s') :
    t ∈ s'.trades := by
  obtain ⟨t', ht', -, hsame⟩ := ho.stays t ht
  rcases hsame with rfl | ⟨hreserved, -⟩
  · exact ht'
  · rw [h.status] at hreserved
    exact nomatch hreserved

/-- A review never moves a trade back. -/
theorem ReviewStep.onward (h : ReviewStep p s s') : TradesOnward s s' := by
  cases h with
  | trades _ ho _ => exact ho
  | added r t _ _ _ _ hs =>
      rw [hs]
      exact ⟨fun t ht => ⟨t, ht, rfl, Or.inl rfl⟩, fun _ _ _ t' ht' _ => ⟨t', ht', rfl⟩⟩

/-- **STEP**: reviews rest on completed trades. -/
theorem ReviewStep.inv (h : ReviewStep p s s') (hi : ReviewInv p s) : ReviewInv p s' := by
  cases h with
  | trades htrades ho hreviews =>
      refine ⟨htrades, fun r hr => ?_, ?_, fun r hr => ?_⟩
      · rw [hreviews] at hr
        obtain ⟨t, ht, hrests⟩ := hi.rests r hr
        exact ⟨t, hrests.onward ht ho, hrests⟩
      · rw [hreviews]
        exact hi.once
      · rw [hreviews] at hr
        exact hi.valid r hr
  | added r t ht hrests hnew hvalid hs =>
      rw [hs]
      have hmem : ∀ x ∈ s.reviews ++ [r], x ∈ s.reviews ∨ x = r := fun x hx => by
        rw [List.mem_append, List.mem_singleton] at hx
        exact hx
      have htrades : TradeInv (addReview r s) := hi.trades.quiet
        { Keeps.refl s with reviews := List.prefix_append _ _ } ⟨rfl, rfl⟩
      refine ⟨htrades, fun x hx => ?_, ?_, fun x hx => ?_⟩
      · rcases hmem x hx with hx | rfl
        · exact hi.rests x hx
        · exact ⟨t, ht, hrests⟩
      · show ((s.reviews ++ [r]).map _).Nodup
        rw [List.map_append, List.map_singleton, List.nodup_append']
        refine ⟨hi.once, List.nodup_singleton _, fun k hk hk' => hnew ?_⟩
        rw [← List.mem_singleton.mp hk']
        exact hk
      · rcases hmem x hx with hx | rfl
        · exact hi.valid x hx
        · exact hvalid

/-! ## The transaction -/

/-- A review, when it is written: no one else writes one for its key. -/
theorem respects_addReview {held : List Lock} (hpk : .unique (.pk .review r.pk) ∈ held)
    (hkey : .unique (.reviewDirection r.trade r.author) ∈ held) :
    Respects p held s (addReview r s) := by
  refine Respects.of_table .review ?_ { Keeps.refl s with reviews := List.prefix_append _ _ }
    ?_ ?_ ?_
  · intro t ht
    cases t <;> first | rfl | exact absurd rfl ht
  · intro t n ht ho
    cases t <;> exact absurd ht (by decide)
  · exact fun _ _ ht => absurd ht (by decide)
  · intro i hi ho h
    cases i with
    | pk t n =>
        cases hi
        exact index_of_append ho (fun hq => by rw [← eq_of_beq hq]; exact hpk) h
    | reviewDirection n m =>
        refine index_of_append ho (fun hq => ?_) h
        rw [Bool.and_eq_true] at hq
        rw [← eq_of_beq hq.1, ← eq_of_beq hq.2]
        exact hkey
    | _ => exact nomatch hi

/-- A review that is about to be committed. -/
structure ReviewReady (r : Review) (held : List Lock) (s : Store) : Prop where
  lock : .row .trade r.trade ∈ held
  rests : ∃ t ∈ s.trades, RestsOn r t
  keyFree : Free held s (.reviewDirection r.trade r.author)

/-- The review that was checked may be written still. -/
theorem ReviewReady.near (hA : Abides p Γ) (h : ReviewReady r w.sess.held w.db)
    (hn : Near Γ w w') : ReviewReady r w'.sess.held w'.db := by
  obtain ⟨t, ht, hrests⟩ := h.rests
  exact ⟨hn.held h.lock, ⟨t, hA.same hn h.lock t ht hrests.trade, hrests⟩, h.keyFree.near hA hn⟩

/-- What the transaction writes: nothing, or the review. -/
inductive ReviewEnd (trade rating : Nat) (body : String) (held : List Lock) (s : Store)
    (f : Store → Store) : Prop where
  | kept : f = id → ReviewEnd trade rating body held s f
  | added (r : Review) : r.trade = trade → r.rating = rating → r.body = body →
      ReviewReady r held s → f = addReview r → ReviewEnd trade rating body held s f

/-- The pending review stays the one that the check allows. -/
theorem ReviewEnd.near {trade rating : Nat} {body : String} {f : Store → Store}
    (hA : Abides p Γ) (h : ReviewEnd trade rating body w.sess.held w.db f) (hn : Near Γ w w') :
    ReviewEnd trade rating body w'.sess.held w'.db f := by
  cases h with
  | kept h => exact .kept h
  | added r htrade hrating hbody hready h =>
      exact .added r htrade hrating hbody (hready.near hA hn) h

/-- The locked row of the trade, which is there if it was at the start. -/
theorem look_reviewTrade (hA : Abides p Γ) (hop : OperationalFaults Γ) (hF : Faults Γ F)
    (hpend : w.sess.pend = id) {trade : Nat} (hmissing : (∀ t ∈ w.db.trades, t.pk ≠ trade) →
      F (.reviewAuthorityError "review cannot be accepted")) :
    Look Γ (Prog.tryCatch (getForUpdate .trade (·.trades) (·.pk) (·.pk == trade)) fun
      | .doesNotExist _ => raise (.reviewAuthorityError "review cannot be accepted")
      | e => raise e) w
      (fun t w' => t ∈ w'.db.trades ∧ t.pk = trade ∧ .row .trade trade ∈ w'.sess.held) F := by
  have hdb : ∀ {w' : World Store Lock Obs}, Still Γ w w' → w'.view = w'.db := fun hs =>
    view_of_id (hs.pend.trans hpend)
  refine Look.mono (P := fun t w' => t ∈ w'.view.trades ∧ t.pk = trade ∧
    .row .trade trade ∈ w'.sess.held) ?_ fun t w' hs ht => ?_
  · refine look_lockRow hA.lawful hop hF .trade (·.trades) (·.pk) trade rfl (fun _ => rfl)
      (fun ⟨t, ht, hpk⟩ w' hs => ?_) fun hnone => hmissing ?_
    · rw [view_of_id hpend] at ht
      have hin : t.identity ∈ w'.db.trades.map Trade.identity :=
        (hA.keeps hs.toNear).trades.subset (List.mem_map_of_mem ht)
      obtain ⟨t', ht', hid⟩ := List.mem_map.mp hin
      rw [hdb hs]
      exact ⟨t', ht', (congrArg Prod.fst hid :).trans hpk⟩
    · rw [view_of_id hpend] at hnone
      exact hnone
  · rw [hdb hs] at ht
    exact ht

/-- **SPECIFICATION** of the transaction of `create_review`. -/
theorem body_createReview (hA : Abides p Γ) (hop : OperationalFaults Γ)
    (actor trade rating : Nat) (body : String) (hpend : w.sess.pend = id)
    (hopen : w.sess.frames ≠ []) :
    Body Γ (createReviewBody actor trade rating body) w
      (fun _ w' => ReviewEnd trade rating body w'.sess.held w'.db w'.sess.pend) anyError := by
  have hΓ := hA.lawful
  refine Body.look hΓ (look_reviewTrade hA hop anyError_faults hpend fun _ => trivial)
    fun t w1 h1 ⟨ht, hpk, hlock⟩ => ?_
  cases hsubject : reviewSubject t actor with
  | none => exact Body.raise hΓ trivial
  | some subject =>
      obtain ⟨hkind, hstatus, hparties⟩ := reviewSubject_eq hsubject
      rw [hpk]
      -- found, or written by the savepoint
      refine Body.bind (P := fun x w' => (w'.sess.pend = id) ∨ ∃ r : Review, r.trade = trade ∧
          r.rating = rating ∧ r.body = body ∧ ReviewReady r w'.sess.held w'.db ∧
          w'.sess.pend = addReview r) hΓ ?_ fun x w2 h2 hx => ?_
      · refine Body.tryCatch (G := anyError) hΓ (body_getOrCreate hΓ anyError_faults
          (by rw [h1.frames]; exact hopen) (fun w2 h2 => ?_) fun w2 w3 h2 he => ?_)
          fun e w2 _ _ => ?_
        · refine (look_fetch anyError_faults _).mono fun _ w3 h3 _ _ _ => Or.inl ?_
          exact (h1.trans hΓ (h2.trans hΓ h3)).pend.trans hpend
        · refine Body.look hΓ Look.fresh fun n w4 h4 _ => ?_
          refine Body.look hΓ (look_raiseIf hΓ fun _ => trivial) fun _ w5 h5 hconsistent => ?_
          have h35 : Near Γ w3.begin w5 := (h4.trans hΓ h5).toNear
          have h13 : Near Γ w1 w3 := (h2.trans hΓ he.still).toNear
          have hpend5 : w5.sess.pend = id := by
            rw [h5.pend, h4.pend, World.begin_pend, he.sess]
            exact (h1.trans hΓ h2).pend.trans hpend
          refine Body.bind hΓ (body_insertRow hΓ anyError_faults trivial fun held _ hkeys s =>
            hA.leave _ _ _ (respects_addReview (hkeys _ List.mem_cons_self)
              (hkeys _ (List.mem_cons_of_mem _ List.mem_cons_self)))) fun _ w6 h6 hi =>
            Body.ret hΓ fun w7 he7 => Or.inr ⟨⟨n, trade, actor, subject, rating, body⟩,
              rfl, rfl, rfl, ?_, ?_⟩
          · rw [Bool.not_eq_false', Review.consistent, Bool.and_eq_true, Bool.and_eq_true,
              Bool.and_eq_true, bne_iff_ne] at hconsistent
            have hkey := (hi.settled hA (List.mem_cons_of_mem _ List.mem_cons_self)
              fun s hs => by rw [hpend5] at hs; exact hs).toFree
            have hl3 : .row .trade trade ∈ w3.begin.sess.held := h13.held hlock
            have ht3 : t ∈ w3.begin.db.trades := hA.same h13 hlock t ht hpk
            have h37 : Near Γ w3.begin w7 :=
              h35.trans hΓ (h6.toNear.trans hΓ he7.still.toNear)
            refine ⟨h37.held hl3, ⟨t, hA.same h37 hl3 t ht3 hpk, hpk, hkind, hstatus, hparties,
              hconsistent.1.1.1⟩, ?_⟩
            show Free w7.sess.held w7.db _
            exact hkey.near hA he7.still.toNear
          · show w7.sess.pend = _
            rw [he7.sess, hi.pend, hpend5]
            rfl
        · cases e <;> exact Body.raise hΓ trivial
      · refine Body.look hΓ (look_raiseIf hΓ fun _ => trivial) fun _ w3 h3 _ => Body.ret hΓ ?_
        rw [h3.pend]
        rcases hx with hx | ⟨r, htrade, hrating, hbody, hready, hx⟩
        · exact .kept hx
        · exact .added r htrade hrating hbody (hready.near hA h3.toNear) hx

/-! ## Calls -/

/-- A call of `create_review`. -/
structure ReviewCall where
  actor : Option User
  trade : Int
  rating : Int
  body : String

def ReviewCall.run (p : Platform) (c : ReviewCall) : M ReviewCreation :=
  createReview p c.actor c.trade c.rating c.body

/-- The reviews and the trades are left alone. -/
structure ReviewsQuiet (s s' : Store) : Prop extends TradesQuiet s s' where
  reviews : s'.reviews = s.reviews

/-- Any transactions that follow the locking rules and leave reviews and trades alone. -/
def ReviewsForeign (p : Platform) (m : M Unit) : Prop :=
  Top (market p ⟨fun _ _ => True, fun _ => ReviewsQuiet⟩ (fun _ _ _ => True)
    fun _ _ _ => True) m

/-- What a session runs: a command about a trade, a review, or something else. -/
inductive ReviewOp (p : Platform) where
  | command (c : TradeCommand)
  | review (c : ReviewCall)
  | other (m : M Unit) (h : ReviewsForeign p m)

def ReviewOp.run : ReviewOp p → M (Option ReviewCreation)
  | .command c => do
      let _ ← c.run
      return none
  | .review c => do
      let r ← c.run p
      return some r
  | .other m _ => do
      m
      return none

/-- The context of sessions that keep the invariant of the reviews. -/
def reviewsCtx (p : Platform) : Ctx Store Lock Exn Obs :=
  under (market p ⟨fun _ _ => True, fun _ s s' => ReviewInv p s → ReviewStep p s s'⟩
    (fun _ _ _ => True) fun _ _ _ => True) (ReviewInv p)

def ReviewOp.ctx : ReviewOp p → Ctx Store Lock Exn Obs
  | .command c => c.ctx (reviewsCtx p)
  | .review _ => reviewsCtx p
  | .other _ _ => reviewsCtx p

/-- The sessions of the reviews keep the discipline of the locks. -/
theorem reviewsCtx_abides (p : Platform) : Abides p (reviewsCtx p) :=
  under_abides (market_abides (everyWrite_lawful _) fun _ _ => trivial) _

/-- Each operation guarantees what the common context says. -/
@[simp] theorem ReviewOp.ctx_guar (op : ReviewOp p) : op.ctx.guar = (reviewsCtx p).guar := by
  cases op with
  | command c => exact c.ctx_guar _
  | review _ => rfl
  | other _ _ => rfl

/-- Each operation is shown what the common context says. -/
@[simp] theorem ReviewOp.ctx_given (op : ReviewOp p) : op.ctx.given = (reviewsCtx p).given := by
  cases op with
  | command c => exact c.ctx_given _
  | review _ => rfl
  | other _ _ => rfl

/-- The operations fit the database together. -/
theorem reviewOps_fits {ι : Type} (ops : ι → ReviewOp p) :
    Fits (postgres fun _ _ => False) (fun i => (ops i).ctx) := by
  refine fits_loosen (Γ := fun _ => reviewsCtx p) (fits_under (market_fits p _
    (fun _ => everyWrite_lawful _) _ _) fun _ _ h => False.elim h) fun i => ?_
  cases ops i with
  | command c => exact c.ctx_cases _
  | review _ => exact Or.inl rfl
  | other _ _ => exact Or.inl rfl

/-- A commit that takes a step is one that the context guarantees. -/
theorem reviewsCtx_guar {held : List Lock} (h : Respects p held s s')
    (hs : ReviewInv p s → ReviewStep p s s') : (reviewsCtx p).guar held s s' :=
  ⟨⟨h, trivial, hs⟩, fun hi => (hs hi).inv hi⟩

/-- Commands leave the reviews alone. -/
theorem CommandStep.reviews {c : TradeCommand} (h : CommandStep c s s') :
    s'.reviews = s.reviews := by
  rcases h with rfl | h
  · rfl
  · cases h <;> rfl

/-- A command of a trade is a step that the reviews survive. -/
theorem CommandStep.reviewStep {c : TradeCommand} (h : CommandStep c s s') (hi : TradeInv s) :
    ReviewStep p s s' := by
  refine .trades (h.inv hi) ?_ h.reviews
  rcases h with rfl | h
  · exact TradesOnward.refl _
  · exact h.onward hi

/-- The rest of the market joins in, as long as it is quiet about the reviews. -/
theorem reviewsForeign_joins (p : Platform) :
    Joins (market p ⟨fun _ _ => True, fun _ => ReviewsQuiet⟩ (fun _ _ _ => True)
        fun _ _ _ => True)
      (market p ⟨fun _ _ => True, fun _ => ReviewsQuiet⟩ (fun _ _ _ => True)
        fun _ _ _ => True)
      (reviewsCtx p) where
  deferred := ⟨rfl, rfl⟩
  fault _ h := ⟨h, h⟩
  rely _ _ _ h := ⟨h.1, h.1⟩
  guar _ s s' h _ := by
    refine reviewsCtx_guar h.1 fun hi => ?_
    have hq : ReviewsQuiet s s' := h.2.2
    refine .trades (hi.trades.quiet h.1.1 hq.toTradesQuiet) ⟨fun t ht => ⟨t, ?_, rfl, Or.inl rfl⟩,
      fun _ _ _ t' ht' _ => ⟨t', ?_, rfl⟩⟩ hq.reviews
    · rw [hq.trades]
      exact ht
    · rw [hq.trades] at ht'
      exact ht'
  given _ _ _ h := ⟨h, h⟩
  shown _ _ _ h _ := h

/-- **CALL**: a review. -/
theorem wp_reviewCall (hnfc : ∀ x, p.normalizeNfc (p.normalizeNfc x) = p.normalizeNfc x)
    (c : ReviewCall) (hi : Idle w) :
    wp (reviewsCtx p) (c.run p) (fun _ _ => True) w := by
  have hA := reviewsCtx_abides p
  obtain ⟨actor, trade, rating, text⟩ := c
  cases actor with
  | none => trivial
  | some user =>
      refine wp_bind (wp_raiseIf (fun _ => trivial) fun hok => ?_)
      rw [Bool.or_eq_false_iff, Bool.or_eq_false_iff, Bool.or_eq_false_iff,
        decide_eq_false_iff_not, decide_eq_false_iff_not, decide_eq_false_iff_not] at hok
      have hpositive : ¬ trade ≤ 0 := hok.1.1.1
      have hlow : ¬ rating < 1 := hok.1.1.2
      have hhigh : ¬ 5 < rating := hok.1.2
      refine wp_bind ?_
      cases hbody : normalizeReviewBody p text with
      | error e => trivial
      | ok body =>
          refine wp_transaction hA.lawful (F := anyError) (P := fun _ _ w' =>
              ReviewEnd trade.toNat rating.toNat body w'.sess.held w'.db w'.sess.pend) hi
            (fun w' he => ?_) anyError_faults (fun _ _ _ _ _ _ => trivial)
            fun w' a w1 w2 _ _ hend he2 hleave => ⟨fun _ => ⟨?_, trivial⟩, fun _ _ => trivial⟩
          · refine body_createReview hA (fun _ h => h) _ _ _ _ (begin_pend_id hi he) ?_
            rw [World.begin_frames]
            exact List.cons_ne_nil _ _
          · have hnear := hend.near hA he2.still.toNear
            refine reviewsCtx_guar hleave.1 fun hinv => ?_
            rw [World.view, he2.sess]
            cases hnear with
            | kept h =>
                rw [h]
                exact .trades hinv.trades (TradesOnward.refl _) rfl
            | added r htrade hrating hbody' hready h =>
                obtain ⟨t, ht, hrests⟩ := hready.rests
                refine .added r t ht hrests (fun hmem => ?_) ⟨?_, ?_, ?_⟩ (congrFun h _)
                · obtain ⟨x, hx, hkey⟩ := List.mem_map.mp hmem
                  have hfree : w2.db.reviews.any (fun x => x.trade == r.trade &&
                      x.author == r.author) = false := hready.keyFree.free
                  refine List.any_eq_false.mp hfree x hx ?_
                  obtain ⟨htrade', hauthor'⟩ := Prod.mk.inj hkey
                  rw [htrade', hauthor', beq_self_eq_true, beq_self_eq_true]
                  rfl
                · rw [htrade]
                  omega
                · rw [hrating]
                  omega
                · rw [hbody']
                  exact goodBody_of_normalize hnfc hbody

/-- Every operation runs to its end inside its context. -/
theorem wp_reviewOp (hnfc : ∀ x, p.normalizeNfc (p.normalizeNfc x) = p.normalizeNfc x)
    (op : ReviewOp p) (hi : Idle w) (h : ReviewInv p w.db) :
    wp op.ctx op.run (fun _ _ => True) w := by
  cases op with
  | command c =>
      refine wp_bind (wp_mono (Q := fun _ _ => True) ?_ ?_)
      · rintro (e | r) w' -
        · trivial
        · trivial
      · refine wp_tradeCommand (I := ReviewInv p) (reviewsCtx_abides p) (fun _ _ _ h => h.1)
          (under_steady _ _) (fun _ h => h.trades.keys) (fun _ _ _ _ _ _ _ _ => trivial) c hi h
          (fun _ _ _ _ _ => trivial) fun r w2 _ _ hrespects hdone => ?_
        have hanswer : Answered c r w2.db w2.view := hdone.answered
        exact ⟨reviewsCtx_guar hrespects fun hinv => hanswer.step.reviewStep hinv.trades, trivial⟩
  | review c =>
      refine wp_bind (wp_mono ?_ (wp_reviewCall hnfc c hi))
      rintro (e | r) w' -
      · trivial
      · trivial
  | other m hm =>
      refine wp_bind (wp_mono ?_ (hm.within (reviewsForeign_joins p) w hi))
      rintro (e | r) w' -
      · trivial
      · trivial

/-! ## Again -/

/-- The rating and the text of a call, trimmed and normalized, are those of the review. -/
def ReviewCall.Agrees (p : Platform) (c : ReviewCall) (r : Review) : Prop :=
  c.rating = (r.rating : Int) ∧ p.normalizeNfc (strip c.body) = r.body

/-- The answers to the author of a review who writes about its trade again: the review, if
    the call agrees with it, and an error otherwise, unless the author is not active any more
    or the database fails. -/
inductive RepeatAnswer (p : Platform) (c : ReviewCall) (author : User) (r : Review)
    (F : Exn → Prop) : Except Exn (Option ReviewCreation) → Prop where
  | same : author.isActive = true → c.Agrees p r →
      RepeatAnswer p c author r F (.ok (some ⟨r, false⟩))
  | differs (message : String) : ¬ c.Agrees p r →
      RepeatAnswer p c author r F (.error (.reviewAuthorityError message))
  | inactive : author.isActive = false →
      RepeatAnswer p c author r F (.error (.reviewAuthorityError "review cannot be accepted"))
  | failed {e : Exn} : F e → RepeatAnswer p c author r F (.error e)

/-- How the transaction of such a call may fail. -/
def RepeatError (r : Review) (rating : Nat) (body : String) (F : Exn → Prop) (e : Exn) : Prop :=
  F e ∨ e = .reviewAuthorityError "review replay does not match" ∧
    ¬ (rating = r.rating ∧ body = r.body)

/-- **REPEAT**: a second call finds the first review, and says whether it is the same. -/
theorem look_reviewRepeat (hA : Abides p Γ) (hop : OperationalFaults Γ)
    (hI : Steady Γ (ReviewInv p)) (h : ReviewInv p w.db) (hr : r ∈ w.db.reviews)
    (hpend : w.sess.pend = id) (rating : Nat) (body : String) :
    Look Γ (createReviewBody r.author r.trade rating body) w
      (fun x _ => x = ⟨r, false⟩ ∧ rating = r.rating ∧ body = r.body)
      (RepeatError r rating body Γ.fault) := by
  have hΓ := hA.lawful
  have hF : Faults Γ (RepeatError r rating body Γ.fault) := fun _ he => Or.inl he
  -- at every later moment the review is there, and rests on its trade
  have later : ∀ {w' : World Store Lock Obs}, Still Γ w w' →
      w'.view = w'.db ∧ ReviewInv p w'.db ∧ r ∈ w'.db.reviews := fun hs =>
    ⟨view_of_id (hs.pend.trans hpend), hI _ _ _ hs.db h,
      (hA.keeps hs.toNear).reviews.subset hr⟩
  refine Look.bind hΓ (look_reviewTrade hA hop hF hpend fun hmissing => ?_)
    fun t w1 h1 ⟨ht, hpk, _⟩ => ?_
  · obtain ⟨t, ht, hrests⟩ := h.rests r hr
    exact absurd hrests.trade (hmissing t ht)
  obtain ⟨-, hinv1, hr1⟩ := later h1
  obtain ⟨t', ht', hrests⟩ := hinv1.rests r hr1
  have htt : t' = t := hinv1.trades.keys.eq ht' ht (hrests.trade.trans hpk.symm)
  rw [← htt, hrests.subject, hrests.trade]
  refine Look.bind (P := fun x _ => x = (r, false)) hΓ ?_ fun x w2 h2 hx => ?_
  · refine Look.tryCatch (G := Γ.fault) hΓ ?_ fun e w2 _ he => ?_
    · refine Look.bind hΓ (look_fetch (fun _ he => he) _) fun stored w2 h2 hstored => ?_
      obtain ⟨hview, hinv2, hr2⟩ := later (h1.trans hΓ h2)
      rw [hview, hinv2.find hr2] at hstored
      rw [hstored]
      exact Look.ret hΓ rfl
    · obtain ⟨sqlstate, rfl⟩ := hop e he
      exact Look.raise hΓ (hF _ he)
  · rw [hx]
    refine Look.bind hΓ (look_raiseIf hΓ fun hne => Or.inr ⟨rfl, fun hsame => ?_⟩) fun _ w3 _ heq =>
      Look.ret hΓ ⟨rfl, ?_⟩
    · rw [hsame.1, hsame.2] at hne
      simp at hne
    · simp only [Bool.not_false, Bool.true_and, Bool.or_eq_false_iff, bne_eq_false_iff_eq] at heq
      exact ⟨heq.1.2.symm, heq.2.symm⟩

/-- **AGAIN**: the call answers without a change. -/
theorem wp_reviewRepeat (hA : Abides p Γ) (hop : OperationalFaults Γ)
    (hI : Steady Γ (ReviewInv p)) (hguar : ∀ held s, Γ.guar held s s) {c : ReviewCall}
    {author : User} (hactor : c.actor = some author) (hauthor : author.pk = r.author)
    (htrade : c.trade = (r.trade : Int)) (h : ReviewInv p w.db) (hr : r ∈ w.db.reviews)
    (hi : Idle w) :
    wp Γ (c.run p >>= fun r => (return some r : M (Option _)))
      (fun x _ => RepeatAnswer p c author r Γ.fault x) w := by
  have hΓ := hA.lawful
  obtain ⟨actor, trade, rating, text⟩ := c
  obtain rfl : actor = some author := hactor
  obtain rfl : trade = (r.trade : Int) := htrade
  obtain ⟨hpositive, ⟨hlow, hhigh⟩, hgood⟩ := h.valid r hr
  refine wp_bind (wp_bind (wp_raiseIf (fun hrefused => ?_) fun hok => wp_bind ?_))
  · rw [Bool.or_eq_true, Bool.or_eq_true, Bool.or_eq_true, decide_eq_true_iff,
      decide_eq_true_iff, decide_eq_true_iff, Bool.not_eq_true'] at hrefused
    have hcases : ((r.trade : Int) ≤ 0 ∨ rating < 1 ∨ 5 < rating) ∨ author.isActive = false := by
      rcases hrefused with ((hc | hc) | hc) | hc
      · exact Or.inl (Or.inl hc)
      · exact Or.inl (Or.inr (Or.inl hc))
      · exact Or.inl (Or.inr (Or.inr hc))
      · exact Or.inr hc
    -- a rating or a trade out of range is not the one that was stored
    rcases hcases with hrange | hinactive
    · refine .differs _ fun hagrees => ?_
      have hrating : rating = (r.rating : Int) := hagrees.1
      omega
    · exact .inactive hinactive
  · rw [Bool.or_eq_false_iff, Bool.or_eq_false_iff, Bool.or_eq_false_iff,
      decide_eq_false_iff_not, decide_eq_false_iff_not, Bool.not_eq_false'] at hok
    have hlow' : ¬ rating < 1 := hok.1.1.2
    have hactive : author.isActive = true := hok.2
    cases hbody : normalizeReviewBody p text with
    | error e =>
        -- a text that is refused cannot be the stored one, whose text was accepted
        have he : ∃ message, e = .reviewAuthorityError message := by
          rw [normalizeReviewBody] at hbody
          split at hbody
          · cases hbody
            exact ⟨_, rfl⟩
          · split at hbody
            · cases hbody
              exact ⟨_, rfl⟩
            · exact nomatch hbody
        obtain ⟨message, rfl⟩ := he
        refine .differs _ fun hagrees => ?_
        have htext : normalizeReviewBody p text = .ok r.body :=
          normalizeReviewBody_eq.mpr ⟨hagrees.2, hgood.length, hgood.printable⟩
        rw [htext] at hbody
        exact nomatch hbody
    | ok body =>
        have htext : p.normalizeNfc (strip text) = body := (normalizeReviewBody_eq.mp hbody).1
        -- the transaction compares what the call means, rating and normal form
        have hiff : (rating.toNat = r.rating ∧ body = r.body) ↔
            ReviewCall.Agrees p ⟨some author, r.trade, rating, text⟩ r := by
          rw [ReviewCall.Agrees]
          show _ ↔ rating = (r.rating : Int) ∧ p.normalizeNfc (strip text) = r.body
          rw [htext]
          refine and_congr_left fun _ => ?_
          omega
        refine wp_transaction hΓ (F := RepeatError r rating.toNat body Γ.fault)
          (P := fun _ x w1 => (x = ⟨r, false⟩ ∧ rating.toNat = r.rating ∧ body = r.body) ∧
            w1.sess.pend = id) hi (fun w' he => ?_) (fun _ he => Or.inl he)
          (fun e w3 he _ _ _ => ?_) fun w' x w1 w2 he hw hp he2 hleave => ?_
        · have hpend : w'.begin.sess.pend = id := begin_pend_id hi he
          have hinv' : ReviewInv p w'.begin.db := hI _ _ _ he.db h
          have hr' : r ∈ w'.begin.db.reviews := (hA.keeps he.still.toNear).reviews.subset hr
          have hlook := look_reviewRepeat hA hop hI hinv' hr' hpend rating.toNat body
          rw [← hauthor] at hlook
          refine wp_mono ?_ hlook
          rintro (e | x) w1 ⟨hs, hx⟩
          · exact ⟨hs.within hΓ, hx⟩
          · exact ⟨hs.within hΓ, hx, hs.pend.trans hpend⟩
        · rcases he with he | ⟨rfl, hne⟩
          · exact .failed he
          · exact .differs _ fun hagrees => hne (hiff.mpr hagrees)
        · obtain ⟨⟨rfl, hsame⟩, hpend⟩ := hp
          have hview : w2.view = w2.db := view_of_id (by rw [he2.sess]; exact hpend)
          rw [hview]
          refine ⟨fun _ => ⟨hguar _ _, .same hactive (hiff.mp hsame)⟩, fun e hd => ?_⟩
          rw [hA.deferred, validateBalancedJournal_same rfl rfl] at hd
          exact nomatch hd

/-! ## Every run -/

section Runs

variable {ι : Type} {ops : ι → ReviewOp p} {now : Time}
  {c c' : Config ι Store Lock Exn Obs (Option ReviewCreation)}
  (hnfc : ∀ x, p.normalizeNfc (p.normalizeNfc x) = p.normalizeNfc x)

include hnfc in
/-- Every session starts supported. -/
theorem reviews_supported (h : ReviewInv p s) :
    Supported (fun i => (ops i).ctx) (fun _ _ _ => True)
      (Config.start s now fun i => (ops i).run) :=
  supported_start (reviewOps_fits ops).lawful fun i => wp_reviewOp hnfc (ops i) ⟨rfl, rfl, rfl⟩ h

/-- Nothing is asked of what the sessions are shown. -/
theorem reviews_given : AllSee (fun i => (ops i).ctx.given) c := fun i _ _ _ _ => by
  show ((ops i).ctx).given _ _ _
  rw [ReviewOp.ctx_given]
  trivial

variable [DecidableEq ι]

include hnfc

/-- **RUN**: from one store of a run to a later one. -/
theorem reviews_onward (h : ReviewInv p s) (hr : Reached s now (fun i => (ops i).run) c)
    (hr' : Reaches (postgres fun _ _ => False) c c') (hi : ReviewInv p c.db) :
    ReviewInv p c'.db ∧ TradesOnward c.db c'.db ∧ c.db.reviews <+: c'.db.reviews := by
  refine run_onward (J := fun d => ReviewInv p d ∧ TradesOnward c.db d ∧ c.db.reviews <+: d.reviews)
    (reviewOps_fits ops) (reviews_supported hnfc h) (fun _ _ _ h => False.elim h)
    (fun i held d d' hj hg => ?_) hr hr' reviews_given ⟨hi, TradesOnward.refl _, List.prefix_rfl⟩
  rw [ReviewOp.ctx_guar] at hg
  obtain ⟨hinv, honward, hreviews⟩ := hj
  have hstep : ReviewStep p d d' := hg.1.2.2 hinv
  exact ⟨hstep.inv hinv, honward.trans hstep.onward, hreviews.trans hg.1.1.1.reviews⟩

/-- **RUN**: the reviews of every store reached. -/
theorem reviewInv_reached (h : ReviewInv p s) (hr : Reached s now (fun i => (ops i).run) c) :
    ReviewInv p c.db :=
  (reviews_onward hnfc h (Reaches.refl _ _) hr h).1

/-- **RUN**: the author of a review writes about its trade again. -/
theorem later_reviewCall (h : ReviewInv p s) (hr : Reached s now (fun i => (ops i).run) c)
    {r : Review} (hmem : r ∈ c.db.reviews) {i : ι} {call : ReviewCall} {author : User}
    (hop : ops i = .review call) (hactor : call.actor = some author)
    (hauthor : author.pk = r.author) (htrade : call.trade = (r.trade : Int))
    (hfresh : c.prog i = (ops i).run) (hsess : c.sess i = {}) {F : Exn → Prop}
    (hF : ∀ e, F e → ∃ sqlstate, e = .operationalError sqlstate)
    (hr' : Reaches (failing (postgres fun _ _ => False) F) c c') :
    (∀ d, Step (failing (postgres fun _ _ => False) F) (some i) c' d → d.db = c'.db) ∧
    ∀ x, c'.prog i = Prog.ofAnswer x → RepeatAnswer p call author r F x := by
  obtain ⟨hapart, hsup, hshown⟩ := run_supported (reviewOps_fits ops)
    (reviews_supported hnfc h) hr reviews_given
  have hctx : (ops i).ctx = reviewsCtx p := by
    rw [hop]
    rfl
  have hA : Abides p (observer (reviewsCtx p) F) :=
    ⟨observer_lawful (reviewsCtx_abides p).lawful F, (reviewsCtx_abides p).rely,
      (reviewsCtx_abides p).leave, rfl⟩
  have hidle : Idle (c.world i) := by
    refine ⟨?_, ?_, ?_⟩ <;> rw [Config.world, hsess]
  have hinv : ReviewInv p (c.world i).db := reviewInv_reached hnfc h hr
  have hwp := wp_reviewRepeat (w := c.world i) hA hF (fun _ _ _ hrely => hrely.2)
    (fun _ _ => rfl) hactor hauthor htrade hinv hmem hidle
  have hprog : c.prog i = (call.run p >>= fun r => (return some r : M (Option _))) := by
    rw [hfresh, hop]
    rfl
  rw [← hprog, ← hctx] at hwp
  obtain ⟨hsame, hpost⟩ := run_observer (reviewOps_fits ops) hapart hsup hshown hF hwp hr'
    reviews_given
  refine ⟨fun d hd => hsame d hd reviews_given, fun x hres => ?_⟩
  obtain ⟨w, -, hp⟩ := hpost x hres
  exact hp

end Runs

/-- The reviews, said of one configuration of a run. -/
structure ReviewsRest {ι : Type} [DecidableEq ι] {p : Platform} (ops : ι → ReviewOp p)
    (c : Config ι Store Lock Exn Obs (Option ReviewCreation)) : Prop where
  rests : ∀ r ∈ c.db.reviews, ∃ t ∈ c.db.trades, RestsOn r t ∧
    ∀ c', Reaches (postgres fun _ _ => False) c c' → r ∈ c'.db.reviews ∧ t ∈ c'.db.trades
  once : ∀ r ∈ c.db.reviews, ∀ r' ∈ c.db.reviews, r.trade = r'.trade → r.author = r'.author →
    r = r'
  bodies : ∀ r ∈ c.db.reviews, GoodBody p r.body
  again : ∀ r ∈ c.db.reviews, ∀ i call author, ops i = .review call →
    call.actor = some author → author.pk = r.author → call.trade = (r.trade : Int) →
    c.prog i = (ops i).run → c.sess i = {} →
    ∀ F : Exn → Prop, (∀ e, F e → ∃ sqlstate, e = .operationalError sqlstate) →
    ∀ c', Reaches (failing (postgres fun _ _ => False) F) c c' →
      (∀ d, Step (failing (postgres fun _ _ => False) F) (some i) c' d → d.db = c'.db) ∧
      ∀ x, c'.prog i = Prog.ofAnswer x → RepeatAnswer p call author r F x

/-- **REVIEWS REST ON TRADES**: in every store that reviews, trade commands and others reach
    from the migrated trades, a review is by one party of a completed standard trade about
    the other, and both stay as they are; a party writes one about a trade; its text is
    normalized, of 1 to 1000 characters and without control characters; and an author who
    writes again gets the review back if rating and text are the same and an error otherwise,
    and changes nothing. -/
theorem reviews_rest_on_trades {ι : Type} [DecidableEq ι] {p : Platform}
    (hnfc : ∀ x, p.normalizeNfc (p.normalizeNfc x) = p.normalizeNfc x) {ops : ι → ReviewOp p}
    {s : Store} {now : Time} {c : Config ι Store Lock Exn Obs (Option ReviewCreation)}
    (h : Migrated s) (hnone : s.reviews = []) (hr : Reached s now (fun i => (ops i).run) c) :
    ReviewsRest ops c := by
  have hstart : ReviewInv p s := by
    refine ⟨h.inv, fun r hr => ?_, ?_, fun r hr => ?_⟩
    · rw [hnone] at hr
      exact nomatch hr
    · rw [hnone]
      exact List.nodup_nil
    · rw [hnone] at hr
      exact nomatch hr
  have hinv := reviewInv_reached hnfc hstart hr
  constructor
  case rests =>
    intro r hmem
    obtain ⟨t, ht, hrests⟩ := hinv.rests r hmem
    refine ⟨t, ht, hrests, fun c' hr' => ?_⟩
    obtain ⟨-, honward, hreviews⟩ := reviews_onward hnfc hstart hr hr' hinv
    exact ⟨hreviews.subset hmem, hrests.onward ht honward⟩
  case once =>
    intro r hmem r' hmem' htrade hauthor
    exact List.inj_on_of_nodup_map hinv.once hmem hmem' (Prod.ext htrade hauthor)
  case bodies => exact fun r hmem => (hinv.valid r hmem).2.2
  case again =>
    intro r hmem i call author hop hactor hauthor htrade hfresh hsess F hF c' hr'
    exact later_reviewCall hnfc hstart hr hmem hop hactor hauthor htrade hfresh hsess hF hr'

/-- A purchase, and what the two parties say of it. -/
def buyAndReview : Fin 4 → ReviewOp plainPlatform
  | 0 => .command (.reserve 2 11)
  | 1 => .command (.complete 1 7 (some 1))
  | 2 => .review ⟨some { pk := 2, username := "buyer" }, 7, 5, " as described "⟩
  | 3 => .review ⟨some { pk := 1, username := "seller" }, 7, 4, "paid at once"⟩

/-- Both reviews are there, and rest on the completed trade. -/
theorem reviews_rest_on_trades_bought :
    ∃ c : Config (Fin 4) Store Lock Exn Obs (Option ReviewCreation),
      Reached soldAndForSale 1000 (fun i => (buyAndReview i).run) c ∧
      c.db.reviews.map (fun r => (r.author, r.subject, r.body)) =
        [(2, 1, "as described"), (1, 2, "paid at once")] ∧ ReviewsRest buyAndReview c := by
  have hplay : (play validateBalancedJournal [.run 0 100 fun _ => 7, .run 1 100 id,
      .run 2 100 fun _ => 3, .run 3 100 fun _ => 4]
      (Config.start (V := Obs) soldAndForSale 1000 fun i => (buyAndReview i).run)).map
        (fun d => d.db.reviews.map fun r => (r.author, r.subject, r.body)) =
      some [(2, 1, "as described"), (1, 2, "paid at once")] := by decide +kernel
  obtain ⟨c, hr, hreviews⟩ := reaches_of_play (D := postgres fun _ _ => False)
    (f := fun d => _) hplay
  exact ⟨c, hr, hreviews, reviews_rest_on_trades (fun _ => rfl) (by decide) rfl hr⟩

end Market
