import Mathlib.Data.List.Dedup
import Mathlib.Data.List.Sort
import Marketplace.TxnInvariants
import Marketplace.WithdrawalSpecs

/-! # What the trade commands commit

    Specifications of `reserve`, `cancel` and `complete` in any interleaving: which
    trade a command opens or ends, under which locks, and what it has found out about
    the parties and the product by then. -/

namespace Market

open TxnProgram TxnInterleaving TxnLogic TxnProtection TxnBody TxnFrames TxnInvariants

variable {p : Platform} {Γ : Ctx Store Lock Exn Obs} {w w' : World Store Lock Obs}
  {s s' : Store} {ρ κ : Type}

/-! ## Rows found by primary key -/

/-- Sorting rows of one key is no work. -/
theorem firstByPk_filter (pk : ρ → Nat) (rows : List ρ) (n : Nat) :
    firstByPk pk (rows.filter (pk · == n)) = rows.find? (pk · == n) := by
  have hsorted : (rows.filter (pk · == n)).Pairwise fun a b => pk a ≤ pk b := by
    refine List.pairwise_of_forall_mem_list fun a ha b hb => ?_
    have hpa := (List.mem_filter.mp ha).2
    have hpb := (List.mem_filter.mp hb).2
    rw [beq_iff_eq] at hpa hpb
    omega
  rw [firstByPk, hsorted.insertionSort_eq, List.head?_filter]

theorem pk_of_find (pk : ρ → Nat) {rows : List ρ} {n : Nat} {r : ρ}
    (h : rows.find? (pk · == n) = some r) : pk r = n := by
  have hr := List.find?_some h
  rw [beq_iff_eq] at hr
  exact hr

/-- The row of a primary key keeps its identity. -/
theorem find_identity {pk : ρ → Nat} (key : ρ → Nat × κ) (hkey : ∀ r, (key r).1 = pk r)
    {rows rows' : List ρ} (h : rows.map key <+: rows'.map key) {n : Nat} {a b : ρ}
    (ha : rows.find? (pk · == n) = some a) (hb : rows'.find? (pk · == n) = some b) :
    key b = key a := by
  have found : ∀ {l : List ρ} {x : ρ}, l.find? (pk · == n) = some x →
      (l.map key).find? (fun k => k.1 == n) = some (key x) := by
    intro l x hx
    have hsame : ((fun k : Nat × κ => k.1 == n) ∘ key) = (pk · == n) := by
      funext r
      rw [Function.comp_apply, hkey]
    rw [List.find?_map, hsame, hx]
    rfl
  have hb' := h.find?_eq_some (found ha)
  rw [found hb] at hb'
  exact Option.some.inj hb'

/-- `.get(pk=...)` of a locking query: the row of that key. -/
theorem look_getByPk (hΓ : Lawful Γ) (t : Table) (rows : Store → List ρ) (pk : ρ → Nat)
    (n : Nat) :
    Look Γ (getForUpdate t rows pk (pk · == n)) w
      (fun r w' => (rows w'.view).find? (pk · == n) = some r ∧ .row t n ∈ w'.sess.held)
      anyError := by
  refine Look.bind hΓ (P := fun r w1 => ∀ a, r = some a →
    (rows w1.view).find? (pk · == n) = some a ∧ .row t n ∈ w1.sess.held) ?_ ?_
  · refine Look.bind hΓ (look_selectForUpdate hΓ anyError_faults t rows pk _)
      fun found w1 h1 hfound => Look.ret hΓ fun a ha => ?_
    have hmem : a ∈ found := List.mem_of_mem_head? ha
    have hpk : pk a = n := eq_of_beq (hfound.mem hmem).2
    refine ⟨?_, by rw [← hpk]; exact hfound.held a hmem⟩
    obtain ⟨w0, -, -, heq⟩ := hfound.result
    -- one row of the key was seen at first, so the second look keeps all of them
    rw [heq] at hmem
    have hseen := (List.mem_filter.mp hmem).2
    rw [Bool.and_eq_true, hpk] at hseen
    rw [← ha, heq, List.head?_filter]
    refine congrArg (fun q => (rows w1.view).find? q) (funext fun r => ?_)
    cases hr : pk r == n with
    | false => rw [Bool.false_and]
    | true => rw [Bool.true_and, eq_of_beq hr, hseen.2]
  · intro r w1 _ hr
    cases r with
    | none => exact Look.raise hΓ trivial
    | some a => exact Look.ret hΓ (hr a rfl)

/-! ## The parties -/

/-- A user that is locked, and has been found fit to trade. -/
structure ActiveParty (n : Nat) (held : List Lock) (s : Store) : Prop where
  lock : .row .user n ∈ held
  row : ∃ u ∈ s.users, u.pk = n ∧ u.isActive = true ∧ u.withdrawnAt = none

theorem ActiveParty.near {n : Nat} (hA : Abides p Γ) (h : ActiveParty n w.sess.held w.db)
    (hn : Near Γ w w') : ActiveParty n w'.sess.held w'.db := by
  obtain ⟨u, hu, hpk, hactive⟩ := h.row
  exact ⟨hn.held h.lock, u, (hA.same hn h.lock).1 u hu hpk, hpk, hactive⟩

/-- No dormancy of the user was live at the time. -/
def NotDormant (n : Nat) (t : Time) (s : Store) : Prop :=
  ∀ a ∈ s.actions, a.kind = .userDormancy → a.targetUser = some n → a.inWindow t = true →
    released s a = true

theorem notDormant_of_anyDormant {users : List Nat} {t : Time} (h : anyDormant users t s = false)
    {n : Nat} (hn : n ∈ users) : NotDormant n t s := by
  intro a ha hkind htarget hwindow
  rw [anyDormant, List.any_eq_false] at h
  have hnot := h a ha
  rw [hkind, htarget, hwindow, Option.any_some, List.contains_iff_mem.mpr hn] at hnot
  cases hr : released s a with
  | true => rfl
  | false =>
      rw [hr] at hnot
      exact absurd rfl hnot

/-- As many keys as were asked for are the keys that were asked for. -/
theorem mem_of_dedup_length {found wanted : List Nat} (hsub : ∀ n ∈ found, n ∈ wanted)
    (h : found.dedup.length = wanted.dedup.length) {n : Nat} (hn : n ∈ wanted) : n ∈ found := by
  have hsubset : found.dedup ⊆ wanted.dedup := fun m hm =>
    List.mem_dedup.mpr (hsub m (List.mem_dedup.mp hm))
  have hperm : found.dedup.Perm wanted.dedup :=
    (List.subperm_of_subset (List.nodup_dedup found) hsubset).perm_of_length_le
    (Nat.le_of_eq h.symm)
  exact List.mem_dedup.mp (hperm.mem_iff.mpr (List.mem_dedup.mpr hn))

/-- **SPECIFICATION** of `_lock_active_users`. -/
theorem look_lockActiveUsers (hA : Abides p Γ) (ids : List Nat) (hpend : w.sess.pend = id) :
    Look Γ (lockActiveUsers ids) w (fun _ w' => (∀ n ∈ ids, ActiveParty n w'.sess.held w'.db) ∧
      ∃ w1, Still Γ w w1 ∧ Still Γ w1 w' ∧
        ∀ n ∈ ids, .row .user n ∈ w1.sess.held ∧ NotDormant n w1.now w1.db) anyError := by
  have hΓ := hA.lawful
  refine Look.bind hΓ (look_selectForUpdate hΓ anyError_faults _ _ _ _)
    fun users w1 h1 hrows => ?_
  have hpend1 : w1.sess.pend = id := h1.pend.trans hpend
  refine Look.bind hΓ (look_raiseIf hΓ fun _ => trivial) fun _ w2 h2 hcount => ?_
  refine Look.bind hΓ (look_raiseIf hΓ fun _ => trivial) fun _ w3 h3 hfit => ?_
  refine Look.bind hΓ (look_fetchNow anyError_faults _) fun dormant w4 h4 hdormant => ?_
  refine Look.bind hΓ (look_raiseIf hΓ fun _ => trivial) fun _ w5 h5 hnone =>
    Look.ret hΓ ?_
  have h14 : Still Γ w1 w4 := h2.trans hΓ (h3.trans hΓ h4)
  rw [bne_eq_false_iff_eq] at hcount
  have hids : ∀ n ∈ users.map (·.pk), n ∈ ids := by
    intro n hn
    obtain ⟨u, hu, rfl⟩ := List.mem_map.mp hn
    exact List.contains_iff_mem.mp (hrows.mem hu).2
  have hfound : ∀ n ∈ ids, n ∈ users.map (·.pk) := fun n hn =>
    mem_of_dedup_length hids hcount hn
  have hactive : ∀ n ∈ ids, ActiveParty n w1.sess.held w1.db := by
    intro n hn
    obtain ⟨u, hu, hpk⟩ := List.mem_map.mp (hfound n hn)
    have hrow := (hrows.mem hu).1
    rw [view_of_id hpend1] at hrow
    rw [List.any_eq_false] at hfit
    have hu' := hfit u hu
    rw [Bool.or_eq_true, not_or] at hu'
    refine ⟨by rw [← hpk]; exact hrows.held u hu, u, hrow, hpk, ?_, ?_⟩
    · cases hb : u.isActive with
      | true => rfl
      | false => exact absurd (by rw [hb]; rfl) hu'.1
    · cases hb : u.withdrawnAt with
      | none => rfl
      | some t => exact absurd (by rw [hb]; rfl) hu'.2
  refine ⟨fun n hn => (hactive n hn).near hA (h14.trans hΓ h5).toNear, w4,
    h1.trans hΓ h14, h5, fun n hn => ⟨h14.held (hactive n hn).lock, ?_⟩⟩
  rw [hnone, view_of_id (h14.pend.trans hpend1)] at hdormant
  exact notDormant_of_anyDormant hdormant.symm (hfound n hn)

/-! ## Commands -/

/-- The commands of `TradeService`. -/
inductive TradeCommand where
  | reserve (actor product : Nat)
  | cancel (actor trade : Nat) (expectedVersion : Option Int)
  | complete (actor trade : Nat) (expectedVersion : Option Int)

def TradeCommand.run : TradeCommand → M TradeResult
  | .reserve actor product => Market.reserve actor product
  | .cancel actor trade expectedVersion => Market.cancel actor trade expectedVersion
  | .complete actor trade expectedVersion => Market.complete actor trade expectedVersion

/-- The history row of a trade in its new status. -/
def historyRow (t : Trade) (oldStatus : Option TradeStatus) (actor : Nat) :
    TradeStatusHistory :=
  { trade := t.pk, fromStatus := oldStatus, toStatus := t.status, actor := actor,
    version := t.version }

/-- The trade that a reservation opens. -/
def reservation (n actor : Nat) (product : Product) : Trade :=
  { pk := n, product := product.pk, seller := product.owner, buyer := some actor,
    status := .reserved }

/-- A reservation is about to be committed. -/
structure Opened (actor product n : Nat) (x : Product) (held : List Lock) (s : Store)
    (f : Store → Store) : Prop where
  row : x ∈ s.products
  pk : x.pk = product
  distinct : x.owner ≠ actor
  buyer : ActiveParty actor held s
  seller : ActiveParty x.owner held s
  productLock : .row .product product ∈ held
  freeTrade : Free held s (.pk .trade n)
  freeProduct : Free held s (.nonCancelledTrade product)
  freeVersion : Free held s (.tradeVersion n 1)
  writes : f = fun s => addTradeHistory (historyRow (reservation n actor x) none actor)
    (addTrade (reservation n actor x) s)

/-- What else a new status brings. -/
inductive Stamps : TradeStatus → (Trade → Trade) → Prop where
  | cancelled : Stamps .cancelled id
  | completed (now : Time) : Stamps .completed fun t => { t with completedAt := some now }

/-- A row in its new status. -/
def endedTrade (version : Nat) (status : TradeStatus) (stamp : Trade → Trade) (r : Trade) :
    Trade :=
  stamp { r with status := status, version := version + 1 }

/-- What the end of a trade writes. -/
def endWrites (t : Trade) (status : TradeStatus) (stamp : Trade → Trade) (actor : Nat)
    (s : Store) : Store :=
  addTradeHistory (historyRow (endedTrade t.version status stamp t) (some t.status) actor)
    (updateTrade t.pk (endedTrade t.version status stamp) s)

/-- The end of a trade is about to be committed. -/
structure Ending (t : Trade) (status : TradeStatus) (stamp : Trade → Trade) (actor : Nat)
    (held : List Lock) (s : Store) (f : Store → Store) : Prop where
  row : t ∈ s.trades
  reserved : t.status = .reserved
  lock : .row .trade t.pk ∈ held
  stamps : Stamps status stamp
  freeVersion : Free held s (.tradeVersion t.pk (t.version + 1))
  writes : f = endWrites t status stamp actor

/-- The command asks for this end of the trade, and its actor may. -/
inductive MayEnd : TradeCommand → Nat → Trade → TradeStatus → Option Int → Prop where
  | cancel (t : Trade) (actor : Nat) (expectedVersion : Option Int) : t.HasParty actor →
      MayEnd (.cancel actor t.pk expectedVersion) actor t .cancelled expectedVersion
  | complete (t : Trade) (expectedVersion : Option Int) :
      MayEnd (.complete t.seller t.pk expectedVersion) t.seller t .completed expectedVersion

/-- What a command is about to commit: a new trade, the end of one, or nothing, when it
    has been done before. -/
inductive TradeDone (held : List Lock) (s : Store) (f : Store → Store) :
    TradeCommand → TradeResult → Prop where
  | opened (actor product n : Nat) (x : Product) : Opened actor product n x held s f →
      TradeDone held s f (.reserve actor product) ⟨reservation n actor x, true⟩
  | reservedBefore (actor : Nat) (t : Trade) : .row .trade t.pk ∈ held → t ∈ s.trades →
      t.status = .reserved → t.buyer = some actor → f = id →
      TradeDone held s f (.reserve actor t.product) ⟨t, false⟩
  | ended (c : TradeCommand) (actor : Nat) (t : Trade) (status : TradeStatus)
      (expectedVersion : Option Int) (stamp : Trade → Trade) :
      MayEnd c actor t status expectedVersion →
      expectedVersion.all (· == (t.version : Int)) = true →
      Ending t status stamp actor held s f →
      TradeDone held s f c ⟨endedTrade t.version status stamp t, false⟩
  | endedBefore (c : TradeCommand) (actor : Nat) (t : Trade) (expectedVersion : Option Int) :
      MayEnd c actor t t.status expectedVersion → .row .trade t.pk ∈ held → t ∈ s.trades →
      f = id → TradeDone held s f c ⟨t, false⟩

theorem Abides.trade (hA : Abides p Γ) {t : Trade} (hn : Near Γ w w')
    (hl : .row .trade t.pk ∈ w.sess.held) (ht : t ∈ w.db.trades) : t ∈ w'.db.trades :=
  hA.same hn hl t ht rfl

/-- What is about to be committed is still so at the commit. -/
theorem TradeDone.env (hA : Abides p Γ) {c : TradeCommand} {r : TradeResult}
    (h : TradeDone w.sess.held w.db w.sess.pend c r) (he : Env Γ w w') :
    TradeDone w'.sess.held w'.db w'.sess.pend c r := by
  have hn : Near Γ w w' := he.still.toNear
  have hpend : w'.sess.pend = w.sess.pend := by rw [he.sess]
  cases h with
  | opened actor product n x h =>
      refine .opened actor product n x { h with
        row := ?_
        buyer := h.buyer.near hA hn
        seller := h.seller.near hA hn
        productLock := hn.held h.productLock
        freeTrade := h.freeTrade.near hA hn
        freeProduct := h.freeProduct.near hA hn
        freeVersion := h.freeVersion.near hA hn
        writes := hpend.trans h.writes }
      exact (hA.same hn h.productLock).1 x h.row h.pk
  | reservedBefore actor t hl ht hs hb hf =>
      exact .reservedBefore actor t (hn.held hl) (hA.trade hn hl ht) hs hb (hpend.trans hf)
  | ended c actor t status expectedVersion stamp hmay hv h =>
      exact .ended c actor t status expectedVersion stamp hmay hv { h with
        row := hA.trade hn h.lock h.row
        lock := hn.held h.lock
        freeVersion := h.freeVersion.near hA hn
        writes := hpend.trans h.writes }
  | endedBefore c actor t expectedVersion hmay hl ht hf =>
      exact .endedBefore c actor t expectedVersion hmay (hn.held hl) (hA.trade hn hl ht)
        (hpend.trans hf)

/-! ## Reservations -/

/-- **SPECIFICATION** of the inserts of `reserve`. -/
theorem body_createReservation (hA : Abides p Γ) {actor : Nat} {x : Product}
    (hrow : x ∈ w.db.products) (hdistinct : x.owner ≠ actor)
    (hbuyer : ActiveParty actor w.sess.held w.db) (hseller : ActiveParty x.owner w.sess.held w.db)
    (hlock : .row .product x.pk ∈ w.sess.held) (hpend : w.sess.pend = id) :
    Body Γ (createReservation actor x) w
      (fun r w' => TradeDone w'.sess.held w'.db w'.sess.pend (.reserve actor x.pk) r)
      anyError := by
  have hΓ := hA.lawful
  refine Body.tryCatch (G := anyError) hΓ ?_ fun e w1 _ _ => ?_
  · refine Body.look hΓ Look.fresh fun n w1 h1 _ => ?_
    have hpend1 : w1.sess.pend = id := h1.pend.trans hpend
    refine Body.bind hΓ (body_insertRow hΓ anyError_faults trivial fun held hsub hkeys s =>
      hA.leave _ _ _ (respects_addTrade (hkeys _ List.mem_cons_self)
        (hkeys _ (List.mem_cons_of_mem _ List.mem_cons_self)) fun m hm => ?_))
      fun _ w2 h2 hi2 => ?_
    · rcases hm with hm | hm
      · rw [← hm]
        exact hsub (h1.held hseller.lock)
      · cases hm
        exact hsub (h1.held hbuyer.lock)
    refine Body.bind hΓ (body_insertRow hΓ anyError_faults trivial fun held hsub hkeys s =>
      hA.leave _ _ _ (respects_addTradeHistory (hkeys _ List.mem_cons_self)))
      fun _ w3 h3 hi3 => Body.ret hΓ (.opened actor x.pk n x ?_)
    have h13 : Near Γ w1 w3 := (h2.trans hΓ h3).toNear
    have h03 : Near Γ w w3 := h1.toNear.trans hΓ h13
    have hfree : ∀ i ∈ [Index.pk .trade n, .nonCancelledTrade x.pk],
        Free w3.sess.held w3.db i := by
      intro i hm
      refine ((hi2.settled hA hm fun s hs => ?_).near hA h3.toNear).toFree
      rw [hpend1] at hs
      exact hs
    exact {
      row := (hA.same h03 hlock).1 x hrow rfl
      pk := rfl
      distinct := hdistinct
      buyer := hbuyer.near hA h03
      seller := hseller.near hA h03
      productLock := h03.held hlock
      freeTrade := hfree _ List.mem_cons_self
      freeProduct := hfree _ (List.mem_cons_of_mem _ List.mem_cons_self)
      freeVersion := (hi3.settled hA List.mem_cons_self fun s hs => by
        rw [hi2.pend, hpend1] at hs
        exact hs).toFree
      writes := by
        rw [hi3.pend, hi2.pend, hpend1]
        rfl }
  · split <;> exact Body.raise hΓ trivial

/-- What `reserve` has found out when it is about to insert. -/
structure Eligible (x : Product) (actor : Nat) (seen : List ModerationAction) (seenAt : Time)
    (now : Time) (s : Store) : Prop where
  row : x ∈ s.products
  distinct : x.owner ≠ actor
  buyer : ∃ u ∈ s.users, u.pk = actor ∧ u.isActive = true ∧ u.withdrawnAt = none
  seller : ∃ u ∈ s.users, u.pk = x.owner ∧ u.isActive = true ∧ u.withdrawnAt = none
  history : seen <+: s.actions
  earlier : seenAt ≤ now
  visible : ∀ a ∈ seen, a.isHideOf x.pk = true → a.inWindow seenAt = true → released s a = true
  dormant : ∃ t, seenAt ≤ t ∧ t ≤ now ∧ NotDormant actor t s ∧ NotDormant x.owner t s

/-- A release is never taken back. -/
theorem Keeps.released (h : Keeps s s') {a : ModerationAction} (hr : released s a = true) :
    released s' a = true := by
  obtain ⟨x, hx, ha⟩ := List.any_eq_true.mp hr
  exact List.any_eq_true.mpr ⟨x, h.releases.subset hx, ha⟩

/-- The dormancies of a locked user are what they were. -/
theorem NotDormant.near (hA : Abides p Γ) {n : Nat} {t : Time} (h : NotDormant n t w.db)
    (hl : .row .user n ∈ w.sess.held) (hn : Near Γ w w') : NotDormant n t w'.db := by
  intro a ha hkind htarget hwindow
  have hmem : a ∈ w'.db.actions.filter (·.targetUser == some n) :=
    List.mem_filter.mpr ⟨ha, beq_iff_eq.mpr htarget⟩
  rw [(hA.same hn hl).2.1] at hmem
  exact (hA.keeps hn).released (h a (List.mem_filter.mp hmem).1 hkind htarget hwindow)

/-- **SPECIFICATION** of `reserve`, up to its commit. -/
theorem body_reserve (hA : Abides p Γ) {actor product : Nat} (hpend : w.sess.pend = id)
    (hshow : ∀ x seen seenAt now s, Eligible x actor seen seenAt now s →
      Γ.given (.reserving x actor seen seenAt) now s →
      Γ.shown (.reserving x actor seen seenAt) now s) :
    Body Γ (reserveBody actor product) w
      (fun r w' => TradeDone w'.sess.held w'.db w'.sess.pend (.reserve actor product) r)
      anyError := by
  have hΓ := hA.lawful
  refine Body.look hΓ (look_fetch anyError_faults _) fun ref w1 h1 href => ?_
  have hpend1 : w1.sess.pend = id := h1.pend.trans hpend
  cases ref with
  | none => exact Body.raise hΓ trivial
  | some ref =>
      rw [firstByPk_filter, view_of_id hpend1] at href
      dsimp only
      split
      · exact Body.raise hΓ trivial
      rename_i hself
      have hrefpk : ref.pk = product := pk_of_find Product.pk href.symm
      refine Body.look hΓ (look_fetchNow anyError_faults _) fun ⟨hidden, seen, seenAt⟩ w2 h2
        hlook => ?_
      have hpend2 : w2.sess.pend = id := h2.pend.trans hpend1
      rw [view_of_id hpend2] at hlook
      refine Body.look hΓ (look_raiseIf hΓ fun _ => trivial) fun _ w3 h3 hnot => ?_
      have hpend3 : w3.sess.pend = id := h3.pend.trans hpend2
      refine Body.look hΓ (look_lockActiveUsers hA [actor, ref.owner] hpend3)
        fun _ w4 h4 ⟨hactive, wd, hd3, hd4, hdormant⟩ => ?_
      have hpend4 : w4.sess.pend = id := h4.pend.trans hpend3
      refine Body.look hΓ (look_getByPk hΓ .product (·.products) (·.pk) product)
        fun x w5 h5 ⟨hx, hlockx⟩ => ?_
      have hpend5 : w5.sess.pend = id := h5.pend.trans hpend4
      rw [view_of_id hpend5] at hx
      have hxpk : x.pk = product := pk_of_find Product.pk hx
      have h15 : Still Γ w1 w5 := h2.trans hΓ (h3.trans hΓ (h4.trans hΓ h5))
      -- the row that is locked is the row of the first look: its owner is the locked seller
      have hid : x.identity = ref.identity := find_identity Product.identity
        (fun _ => rfl) (hA.keeps h15.toNear).products href.symm hx
      have howner : x.owner = ref.owner := congrArg Prod.snd hid
      refine Body.look hΓ (look_firstForUpdate hΓ anyError_faults _ _ _ _)
        fun existing w6 h6 hexisting => ?_
      have hpend6 : w6.sess.pend = id := h6.pend.trans hpend5
      cases existing with
      | some t =>
          obtain ⟨ht, hcond, hlockt⟩ := hexisting
          rw [view_of_id hpend6] at ht
          rw [Bool.and_eq_true, beq_iff_eq, hxpk] at hcond
          dsimp only
          split
          · rename_i hmine
            rw [Bool.and_eq_true, beq_iff_eq, beq_iff_eq] at hmine
            rw [← hcond.1]
            exact Body.ret hΓ (.reservedBefore actor t hlockt ht hmine.1 hmine.2 hpend6)
          · exact Body.raise hΓ trivial
      | none =>
          have h56 : Still Γ w5 w6 := h6
          have hdistinct : x.owner ≠ actor := fun he =>
            hself (beq_iff_eq.mpr (he.symm.trans howner))
          -- what the checks saw is so at any later moment of the call
          have hat : ∀ w7, Still Γ w6 w7 → x ∈ w7.db.products ∧
              ActiveParty actor w7.sess.held w7.db ∧ ActiveParty x.owner w7.sess.held w7.db ∧
              Eligible x actor seen seenAt w7.now w7.db := by
            intro w7 h7
            have h57 : Near Γ w5 w7 := (h6.trans hΓ h7).toNear
            have h47 : Near Γ w4 w7 := h5.toNear.trans hΓ h57
            have hd7 : Near Γ wd w7 := hd4.toNear.trans hΓ h47
            have h27 : Near Γ w2 w7 := h3.toNear.trans hΓ (h4.toNear.trans hΓ h47)
            have hrow : x ∈ w7.db.products :=
              (hA.same h57 hlockx).1 x (List.mem_of_find?_eq_some hx) hxpk
            have hbuyer := (hactive actor List.mem_cons_self).near hA h47
            have hseller := (hactive ref.owner
              (List.mem_cons_of_mem _ List.mem_cons_self)).near hA h47
            rw [← howner] at hseller
            obtain ⟨hld, hdb⟩ := hdormant actor List.mem_cons_self
            obtain ⟨hls, hds⟩ := hdormant ref.owner (List.mem_cons_of_mem _ List.mem_cons_self)
            have hhidden : productHidden ref.pk w2.now w2.db = false :=
              (congrArg Prod.fst hlook).symm.trans hnot
            have hseen : seen = w2.db.actions := congrArg (·.2.1) hlook
            have hseenAt : seenAt = w2.now := congrArg (·.2.2) hlook
            refine ⟨hrow, hbuyer, hseller, hrow, hdistinct, hbuyer.row, hseller.row, ?_, ?_, ?_,
              wd.now, ?_, hd7.now, hdb.near hA hld hd7, ?_⟩
            · rw [hseen]
              exact (hA.keeps h27).actions
            · rw [hseenAt]
              exact h27.now
            · intro a ha hhide hwindow
              rw [hseen] at ha
              rw [hseenAt] at hwindow
              rw [productHidden, List.any_eq_false] at hhidden
              have hnot' := hhidden a ha
              rw [hrefpk, ← hxpk, hhide, hwindow] at hnot'
              cases hr : released w2.db a with
              | true => exact (hA.keeps h27).released hr
              | false =>
                  rw [hr] at hnot'
                  exact absurd rfl hnot'
            · rw [hseenAt]
              exact Nat.le_trans h3.now hd3.now
            · rw [howner]
              exact hds.near hA hls hd7
          refine Body.look hΓ (Look.observe fun w7 h7 hg => hshow _ _ _ _ _ (hat w7 h7).2.2.2 hg)
            fun _ w7 h7 _ => ?_
          obtain ⟨hrow, hbuyer, hseller, -⟩ := hat w7 h7
          have hbody := body_createReservation hA hrow hdistinct hbuyer hseller
            (by rw [hxpk]; exact h7.held (h56.held hlockx)) (h7.pend.trans hpend6)
          rw [hxpk] at hbody
          exact hbody

/-! ## The end of a trade -/

/-- **SPECIFICATION** of the locks of `cancel` and `complete`: the trade that was found,
    as it is under its lock. -/
theorem look_lockTrade (hA : Abides p Γ) {ref : Trade} (hpend : w.sess.pend = id)
    (href : w.db.trades.find? (·.pk == ref.pk) = some ref) :
    Look Γ (lockTrade ref) w (fun t w' => t ∈ w'.db.trades ∧ t.identity = ref.identity ∧
      .row .trade t.pk ∈ w'.sess.held) anyError := by
  have hΓ := hA.lawful
  refine Look.bind hΓ (P := fun _ _ => True) ?_ fun _ w1 h1 _ => ?_
  · rw [lockParties]
    split
    · exact (look_lockActiveUsers hA _ hpend).mono fun _ _ _ _ => trivial
    · exact Look.raise hΓ trivial
  refine Look.bind hΓ (look_getByPk hΓ .product (·.products) (·.pk) ref.product)
    fun _ w2 h2 _ => ?_
  refine (look_getByPk hΓ .trade (·.trades) (·.pk) ref.pk).mono fun t w3 h3 ⟨ht, hlock⟩ => ?_
  have h03 : Still Γ w w3 := h1.trans hΓ (h2.trans hΓ h3)
  rw [view_of_id (h03.pend.trans hpend)] at ht
  refine ⟨List.mem_of_find?_eq_some ht, ?_, ?_⟩
  · exact find_identity Trade.identity (fun _ => rfl) (hA.keeps h03.toNear).trades
      href ht
  · rw [pk_of_find Trade.pk ht]
    exact hlock

/-- **SPECIFICATION** of what `cancel` and `complete` do with the locked trade.  The write
    is judged when it is committed. -/
theorem body_endTrade (hA : Abides p Γ) (hfree : ∀ held s s', Γ.leave held s s') {c : TradeCommand}
    {actor : Nat} {t : Trade} {status : TradeStatus} {expectedVersion : Option Int}
    {stamp : M (Trade → Trade)} (hmay : MayEnd c actor t status expectedVersion)
    (hstamp : ∀ w, Look Γ stamp w (fun f _ => Stamps status f) anyError)
    (ht : t ∈ w.db.trades) (hl : .row .trade t.pk ∈ w.sess.held) (hpend : w.sess.pend = id) :
    Body Γ (endTrade actor t expectedVersion status stamp) w
      (fun r w' => TradeDone w'.sess.held w'.db w'.sess.pend c r) anyError := by
  have hΓ := hA.lawful
  rw [endTrade]
  split
  · -- it has this status already: the call is repeated
    rename_i hstatus
    rw [← eq_of_beq hstatus] at hmay
    exact Body.ret hΓ (.endedBefore c actor t expectedVersion hmay hl ht hpend)
  · refine Body.look hΓ (look_raiseIf hΓ fun _ => trivial) fun _ w1 h1 hreserved => ?_
    refine Body.look hΓ (look_raiseIf hΓ fun _ => trivial) fun _ w2 h2 hversion => ?_
    refine Body.look hΓ (hstamp w2) fun set w3 h3 hset => ?_
    have h03 : Still Γ w w3 := h1.trans hΓ (h2.trans hΓ h3)
    have hpend3 : w3.sess.pend = id := h03.pend.trans hpend
    rw [bne_eq_false_iff_eq] at hreserved
    refine Body.bind hΓ (body_updateRows hΓ anyError_faults fun held _ _ s => hfree _ _ _)
      fun _ w4 h4 ⟨hp4, _⟩ => ?_
    refine Body.bind hΓ (body_insertRow hΓ anyError_faults trivial fun held _ _ s =>
      hfree _ _ _) fun _ w5 h5 hi5 => Body.ret hΓ ?_
    have h35 : Near Γ w3 w5 := (h4.trans hΓ h5).toNear
    have h05 : Near Γ w w5 := h03.toNear.trans hΓ h35
    refine .ended c actor t status expectedVersion set hmay ?_ ?_
    · cases expectedVersion with
      | none => rfl
      | some v =>
          rw [Option.any_some, bne_eq_false_iff_eq] at hversion
          rw [Option.all_some, beq_iff_eq]
          exact hversion
    · have hkey : (endedTrade t.version status set t).pk = t.pk ∧
          (endedTrade t.version status set t).version = t.version + 1 := by
        cases hset <;> exact ⟨rfl, rfl⟩
      exact {
        row := hA.trade h05 hl ht
        reserved := hreserved
        lock := h05.held hl
        stamps := hset
        freeVersion := by
          rw [← hkey.2]
          have hsettled := hi5.settled hA List.mem_cons_self fun s hs => by
            rw [hp4, hpend3] at hs
            exact hs
          have hfree := hsettled.toFree
          rw [show (set { t with status := status, version := t.version + 1 }).pk = t.pk
            from hkey.1] at hfree
          exact hfree
        writes := by
          rw [hi5.pend, hp4, hpend3]
          rfl }

/-- The trade that a command names, and what its actor is to it. -/
theorem look_tradeRef (n : Nat) (hpend : w.sess.pend = id) :
    Look Γ (tradeRef n) w (fun ref w' => ref = w'.db.trades.find? (·.pk == n)) anyError :=
  (look_fetch anyError_faults _).mono fun ref w' h hr => by
    rw [hr, firstByPk_filter, view_of_id (h.pend.trans hpend)]

/-- **SPECIFICATION** of `cancel`, up to its commit. -/
theorem body_cancel (hA : Abides p Γ) (hfree : ∀ held s s', Γ.leave held s s') {actor n : Nat}
    {expectedVersion : Option Int} (hpend : w.sess.pend = id) :
    Body Γ (cancelBody actor n expectedVersion) w
      (fun r w' => TradeDone w'.sess.held w'.db w'.sess.pend (.cancel actor n expectedVersion) r)
      anyError := by
  have hΓ := hA.lawful
  refine Body.look hΓ (look_tradeRef n hpend) fun ref w1 h1 href => ?_
  have hpend1 : w1.sess.pend = id := h1.pend.trans hpend
  cases ref with
  | none => exact Body.raise hΓ trivial
  | some ref =>
      have hpk : ref.pk = n := pk_of_find Trade.pk href.symm
      dsimp only
      split
      · exact Body.raise hΓ trivial
      rename_i hparty
      refine Body.look hΓ (look_lockTrade hA hpend1 (by rw [hpk]; exact href.symm))
        fun t w2 h2 ⟨ht, hid, hlock⟩ => ?_
      have htn : t.pk = n := (congrArg Prod.fst hid).trans hpk
      have hseller : t.seller = ref.seller := congrArg (·.2.2.1) hid
      have hbuyer : t.buyer = ref.buyer := congrArg (·.2.2.2.1) hid
      have hmay : t.HasParty actor := by
        rw [Trade.HasParty, hseller, hbuyer]
        by_cases hs : ref.seller = actor
        · exact Or.inl hs
        · refine Or.inr (Decidable.byContradiction fun hb => hparty ?_)
          rw [Bool.and_eq_true, bne_iff_ne, bne_iff_ne]
          exact ⟨fun h => hs h.symm, fun h => hb h.symm⟩
      rw [← htn]
      exact body_endTrade hA hfree (.cancel t actor expectedVersion hmay)
        (fun w => Look.ret hΓ .cancelled) ht hlock (h2.pend.trans hpend1)

/-- **SPECIFICATION** of `complete`, up to its commit. -/
theorem body_complete (hA : Abides p Γ) (hfree : ∀ held s s', Γ.leave held s s') {actor n : Nat}
    {expectedVersion : Option Int} (hpend : w.sess.pend = id) :
    Body Γ (completeBody actor n expectedVersion) w
      (fun r w' => TradeDone w'.sess.held w'.db w'.sess.pend (.complete actor n expectedVersion)
        r) anyError := by
  have hΓ := hA.lawful
  refine Body.look hΓ (look_tradeRef n hpend) fun ref w1 h1 href => ?_
  have hpend1 : w1.sess.pend = id := h1.pend.trans hpend
  cases ref with
  | none => exact Body.raise hΓ trivial
  | some ref =>
      have hpk : ref.pk = n := pk_of_find Trade.pk href.symm
      dsimp only
      split
      · exact Body.raise hΓ trivial
      rename_i hparty
      refine Body.look hΓ (look_lockTrade hA hpend1 (by rw [hpk]; exact href.symm))
        fun t w2 h2 ⟨ht, hid, hlock⟩ => ?_
      have htn : t.pk = n := (congrArg Prod.fst hid).trans hpk
      have hseller : t.seller = actor := by
        have hs : t.seller = ref.seller := congrArg (·.2.2.1) hid
        rw [bne_iff_ne, not_not] at hparty
        exact hs.trans hparty.symm
      rw [← htn, ← hseller]
      exact body_endTrade hA hfree (.complete t expectedVersion) (fun w =>
        Look.bind hΓ Look.fresh fun now _ _ _ => Look.ret hΓ (.completed now)) ht hlock
        (h2.pend.trans hpend1)

end Market
