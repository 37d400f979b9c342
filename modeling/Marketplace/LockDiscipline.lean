import Mathlib.Data.List.Basic
import Marketplace.Transfers
import Marketplace.TxnProtection

/-! # Which lock protects what

    The locking rules that the services follow together.  A row lock protects its
    row; the row lock of a user or a product also protects the sanctions of that
    target, the lock of a user what belongs to the user, the lock of an action its
    release.  The safety lock protects the safety state, an idempotency lock the
    requests of its keys, and an index entry being inserted keeps the key away from
    others.  Nobody rewrites the identity of a row or takes back an entry of the
    ledger. -/

namespace Market

open TxnProgram TxnInterleaving TxnLogic TxnProtection

/-! ## What never changes -/

def User.identity (u : User) : Nat := u.pk
def Product.identity (p : Product) : Nat × Nat := (p.pk, p.owner)
def MockAccount.identity (a : MockAccount) : Nat × Nat := (a.pk, a.user)
def Trade.identity (t : Trade) : Nat × Nat × Nat × Option Nat × TradeKind :=
  (t.pk, t.product, t.seller, t.buyer, t.kind)
def RevocationTask.identity (t : RevocationTask) : Nat × Nat × String × Nat :=
  (t.pk, t.user, t.eventKey, t.authEpoch)

/-- A report without the action that has consumed it. -/
def AbuseReport.identity (r : AbuseReport) : AbuseReport := { r with consumedBy := none }

/-- Whom a grant lets act on what, and who gave it; its version and its revocation change. -/
def AdminScopeGrant.identity (g : AdminScopeGrant) :
    Nat × Nat × String × (Option Nat × Option Nat × Option Nat) × Nat :=
  (g.pk, g.staff, g.codename, (g.targetUser, g.targetProduct, g.targetReview), g.grantedBy)

/-- A message without the state of its delivery. -/
def ChatMessage.accepted (m : ChatMessage) : ChatMessage := { m with delivery := .live }

/-- What every commit keeps: rows keep their identity, and ledger, sanctions and
    requests only grow. -/
structure Keeps (s s' : Store) : Prop where
  users : s.users.map User.identity <+: s'.users.map User.identity
  products : s.products.map Product.identity <+: s'.products.map Product.identity
  accounts : s.accounts.map MockAccount.identity <+: s'.accounts.map MockAccount.identity
  ledgerAccounts : s.ledgerAccounts <+: s'.ledgerAccounts
  journals : s.journals <+: s'.journals
  entries : s.entries <+: s'.entries
  transfers : s.transfers <+: s'.transfers
  requests : s.requests <+: s'.requests
  actions : s.actions <+: s'.actions
  releases : s.releases <+: s'.releases
  reports : s.reports.map AbuseReport.identity <+: s'.reports.map AbuseReport.identity
  scopeGrants : s.scopeGrants.map AdminScopeGrant.identity <+:
    s'.scopeGrants.map AdminScopeGrant.identity
  rooms : s.rooms <+: s'.rooms
  conversations : s.conversations <+: s'.conversations
  trades : s.trades.map Trade.identity <+: s'.trades.map Trade.identity
  tradeHistory : s.tradeHistory <+: s'.tradeHistory
  reviews : s.reviews <+: s'.reviews
  visibilityActions : s.visibilityActions <+: s'.visibilityActions
  messages : s.messages.map ChatMessage.accepted <+: s'.messages.map ChatMessage.accepted
  tasks : s.revocationTasks.map RevocationTask.identity <+:
    s'.revocationTasks.map RevocationTask.identity
  published : s.published <+: s'.published
  effects : s.effects <+: s'.effects
  safety : s.safety.isSome → s'.safety.isSome

/-- A store keeps its own rows. -/
theorem Keeps.refl (s : Store) : Keeps s s where
  users := List.prefix_rfl
  products := List.prefix_rfl
  accounts := List.prefix_rfl
  ledgerAccounts := List.prefix_rfl
  journals := List.prefix_rfl
  entries := List.prefix_rfl
  transfers := List.prefix_rfl
  requests := List.prefix_rfl
  actions := List.prefix_rfl
  releases := List.prefix_rfl
  reports := List.prefix_rfl
  scopeGrants := List.prefix_rfl
  rooms := List.prefix_rfl
  conversations := List.prefix_rfl
  trades := List.prefix_rfl
  tradeHistory := List.prefix_rfl
  reviews := List.prefix_rfl
  visibilityActions := List.prefix_rfl
  messages := List.prefix_rfl
  tasks := List.prefix_rfl
  published := List.prefix_rfl
  effects := List.prefix_rfl
  safety h := h

/-- Keeping composes. -/
theorem Keeps.trans {s s' s'' : Store} (h : Keeps s s') (h' : Keeps s' s'') :
    Keeps s s'' where
  users := h.users.trans h'.users
  products := h.products.trans h'.products
  accounts := h.accounts.trans h'.accounts
  ledgerAccounts := h.ledgerAccounts.trans h'.ledgerAccounts
  journals := h.journals.trans h'.journals
  entries := h.entries.trans h'.entries
  transfers := h.transfers.trans h'.transfers
  requests := h.requests.trans h'.requests
  actions := h.actions.trans h'.actions
  releases := h.releases.trans h'.releases
  reports := h.reports.trans h'.reports
  scopeGrants := h.scopeGrants.trans h'.scopeGrants
  rooms := h.rooms.trans h'.rooms
  conversations := h.conversations.trans h'.conversations
  trades := h.trades.trans h'.trades
  tradeHistory := h.tradeHistory.trans h'.tradeHistory
  reviews := h.reviews.trans h'.reviews
  visibilityActions := h.visibilityActions.trans h'.visibilityActions
  messages := h.messages.trans h'.messages
  tasks := h.tasks.trans h'.tasks
  published := h.published.trans h'.published
  effects := h.effects.trans h'.effects
  safety hs := h'.safety (h.safety hs)

/-! ## What a lock protects -/

/-- The rows of a list with a key stay as they are. -/
def RowStays {ρ : Type} (pk : ρ → Nat) (n : Nat) (rows rows' : List ρ) : Prop :=
  ∀ r ∈ rows, pk r = n → r ∈ rows'

/-- A row stays as it is in its own table. -/
theorem RowStays.refl {ρ : Type} (pk : ρ → Nat) (n : Nat) (rows : List ρ) :
    RowStays pk n rows rows := fun _ h _ => h

/-- A row that stays twice stays. -/
theorem RowStays.trans {ρ : Type} {pk : ρ → Nat} {n : Nat} {a b c : List ρ}
    (h : RowStays pk n a b) (h' : RowStays pk n b c) : RowStays pk n a c :=
  fun r hr hn => h' r (h r hr hn) hn

/-- The user is the seller or the buyer. -/
def Trade.HasParty (n : Nat) (t : Trade) : Prop := t.seller = n ∨ t.buyer = some n

/-- What belongs to a user: nothing is added to it, and nobody takes a message or a
    revocation task away. -/
structure OwnedSame (n : Nat) (s s' : Store) : Prop where
  favorites : ∀ r ∈ s'.favorites, r.user = n → r ∈ s.favorites
  notifications : ∀ r ∈ s'.notifications, r.recipient = n → r ∈ s.notifications
  products : ∀ r ∈ s'.products, r.owner = n → r.identity ∈ s.products.map Product.identity
  reserved : ∀ t ∈ s'.trades, t.HasParty n → t.status = .reserved →
    ∃ x ∈ s.trades, x.pk = t.pk ∧ x.HasParty n ∧ x.status = .reserved
  messages : (s'.messages.filter (·.sender == n)).map ChatMessage.accepted =
    (s.messages.filter (·.sender == n)).map ChatMessage.accepted
  tasks : (s'.revocationTasks.filter (·.user == n)).map RevocationTask.identity =
    (s.revocationTasks.filter (·.user == n)).map RevocationTask.identity

/-- What a user owns is the same in the same store. -/
theorem OwnedSame.refl (n : Nat) (s : Store) : OwnedSame n s s where
  favorites _ h _ := h
  notifications _ h _ := h
  products _ h _ := List.mem_map_of_mem h
  reserved t h hp hs := ⟨t, h, rfl, hp, hs⟩
  messages := rfl
  tasks := rfl

/-- Sameness of what a user owns composes. -/
theorem OwnedSame.trans {n : Nat} {s s' s'' : Store} (h : OwnedSame n s s')
    (h' : OwnedSame n s' s'') : OwnedSame n s s'' where
  favorites r hr hn := h.favorites r (h'.favorites r hr hn) hn
  notifications r hr hn := h.notifications r (h'.notifications r hr hn) hn
  products r hr hn := by
    obtain ⟨x, hx, hid⟩ := List.mem_map.mp (h'.products r hr hn)
    rw [← hid]
    exact h.products x hx ((congrArg Prod.snd hid).trans hn)
  reserved t ht hp hs := by
    obtain ⟨x, hx, hpk, hp', hs'⟩ := h'.reserved t ht hp hs
    obtain ⟨y, hy, hpk', hp'', hs''⟩ := h.reserved x hx hp' hs'
    exact ⟨y, hy, hpk'.trans hpk, hp'', hs''⟩
  messages := h'.messages.trans h.messages
  tasks := h'.tasks.trans h.tasks

/-- The part of the store that a row lock protects did not change. -/
def rowSame (t : Table) (n : Nat) (s s' : Store) : Prop :=
  match t with
  | .user => RowStays User.pk n s.users s'.users ∧
      s'.actions.filter (·.targetUser == some n) =
        s.actions.filter (·.targetUser == some n) ∧
      OwnedSame n s s'
  | .product => RowStays Product.pk n s.products s'.products ∧
      s'.actions.filter (·.targetProduct == some n) =
        s.actions.filter (·.targetProduct == some n)
  | .revocationTask => RowStays RevocationTask.pk n s.revocationTasks s'.revocationTasks
  | .trade => RowStays Trade.pk n s.trades s'.trades
  | .review => s'.visibilityActions.filter (·.review == n) =
      s.visibilityActions.filter (·.review == n)
  | .mockAccount => RowStays MockAccount.pk n s.accounts s'.accounts
  | .action => s'.releases.filter (·.action == n) = s.releases.filter (·.action == n)
  | .scopeGrant => RowStays AdminScopeGrant.pk n s.scopeGrants s'.scopeGrants
  | .safety => n = 1 → s.safety.isSome → s'.safety = s.safety
  | _ => True

/-- The part of the store that a lock protects did not change. -/
def Lock.same (p : Platform) (l : Lock) (s s' : Store) : Prop :=
  match l with
  | .advisory key _ =>
      (key = SAFETY_LOCK_KEY → s.safety.isSome → s'.safety = s.safety) ∧
      s'.requests.filter (fun r => p.idempotencyDigest r.sender r.idempotencyKey = key) =
        s.requests.filter (fun r => p.idempotencyDigest r.sender r.idempotencyKey = key)
  | .row t n => rowSame t n s s'
  | .unique i => i.present s = false → i.present s' = false

/-- The locking rules of the marketplace. -/
def marketDiscipline (p : Platform) : Discipline Store Lock where
  same := Lock.same p
  keep := Keeps

/-- A row is the same in the same store. -/
theorem rowSame_refl (t : Table) (n : Nat) (s : Store) : rowSame t n s s := by
  cases t with
  | user => exact ⟨RowStays.refl _ _ _, rfl, OwnedSame.refl _ _⟩
  | product => exact ⟨RowStays.refl _ _ _, rfl⟩
  | revocationTask => exact RowStays.refl _ _ _
  | trade => exact RowStays.refl _ _ _
  | review => exact rfl
  | mockAccount => exact RowStays.refl _ _ _
  | action => exact rfl
  | scopeGrant => exact RowStays.refl _ _ _
  | safety => exact fun _ _ => rfl
  | _ => trivial

/-- Sameness of a row composes. -/
theorem rowSame_trans {t : Table} {n : Nat} {s s' s'' : Store}
    (h : rowSame t n s s') (h' : rowSame t n s' s'') : rowSame t n s s'' := by
  cases t with
  | user => exact ⟨h.1.trans h'.1, h'.2.1.trans h.2.1, h.2.2.trans h'.2.2⟩
  | product => exact ⟨h.1.trans h'.1, h'.2.trans h.2⟩
  | revocationTask => exact RowStays.trans h h'
  | trade => exact RowStays.trans h h'
  | review => exact Eq.trans h' h
  | mockAccount => exact RowStays.trans h h'
  | action => exact Eq.trans h' h
  | scopeGrant => exact RowStays.trans h h'
  | safety =>
      intro hn hs
      have h1 := h hn hs
      exact (h' hn (by rw [h1]; exact hs)).trans h1
  | _ => trivial

/-- **DISCIPLINE**: what the locks protect composes, and more locks protect more. -/
theorem marketDiscipline_lawful (p : Platform) : (marketDiscipline p).Lawful where
  same_refl l s := by
    cases l with
    | advisory key shared => exact ⟨fun _ _ => rfl, rfl⟩
    | row t n => exact rowSame_refl t n s
    | unique i => exact fun h => h
  same_trans l s s' s'' h h' := by
    cases l with
    | advisory key shared =>
        refine ⟨fun hk hs => ?_, Eq.trans h'.2 h.2⟩
        have h1 := h.1 hk hs
        exact (h'.1 hk (by rw [h1]; exact hs)).trans h1
    | row t n => exact rowSame_trans h h'
    | unique i => exact fun hs => h' (h hs)
  keep_refl := Keeps.refl
  keep_trans _ _ _ h h' := Keeps.trans h h'

/-- The proof context of one session of the marketplace. -/
def market (p : Platform) (R : Role Store Lock)
    (given shown : Obs → Nat → Store → Prop) : Ctx Store Lock Exn Obs :=
  protect (postgres fun _ _ => False) (marketDiscipline p) R given shown

/-- A role in the market, within the discipline, is lawful. -/
theorem market_lawful (p : Platform) {R : Role Store Lock} (hR : R.Lawful)
    (given shown : Obs → Nat → Store → Prop) : Lawful (market p R given shown) :=
  protect_lawful _ (marketDiscipline_lawful p) hR given shown

/-- Sessions of the market fit the database together, whatever their roles. -/
theorem market_fits {ι : Type} (p : Platform) (R : ι → Role Store Lock)
    (hR : ∀ i, (R i).Lawful) (given shown : Obs → Nat → Store → Prop) :
    TxnSoundness.Fits (postgres fun _ _ => False)
      (fun i => market p (R i) given shown) :=
  protect_fits (marketDiscipline_lawful p) Lock.conflicts_symm
    (fun _ _ h => False.elim h) R hR given shown

/-- The configuration is reached from store `s` by sessions that run `prog`, in some
    interleaving. -/
def Reached {ι α : Type} [DecidableEq ι] (s : Store) (now : Time) (prog : ι → M α)
    (c : Config ι Store Lock Exn Obs α) : Prop :=
  Reaches (postgres fun _ _ => False) (Config.start s now prog) c

/-! ## Writes that respect the locks of others -/

/-- A write under these locks leaves alone what the locks of others protect. -/
def Respects (p : Platform) (held : List Lock) (s s' : Store) : Prop :=
  (marketDiscipline p).guar (postgres fun _ _ => False) held s s'

/-- To do nothing respects every lock. -/
theorem Respects.refl (p : Platform) (held : List Lock) (s : Store) : Respects p held s s :=
  ⟨Keeps.refl s, fun l _ => (marketDiscipline_lawful p).same_refl l s⟩

/-- Writes that respect the locks compose. -/
theorem Respects.trans {p : Platform} {held : List Lock} {s s' s'' : Store}
    (h : Respects p held s s') (h' : Respects p held s' s'') : Respects p held s s'' :=
  ⟨h.1.trans h'.1, fun l hl =>
    (marketDiscipline_lawful p).same_trans l s s' s'' (h.2 l hl) (h'.2 l hl)⟩

/-- No lock of the list excludes another session from holding `l`. -/
def Open (held : List Lock) (l : Lock) : Prop := ∀ x ∈ held, ¬ Lock.conflicts x l

/-- The table an index belongs to. -/
def Index.table : Index → Table
  | .pk t _ => t
  | .sessionKey _ => .sessionIndex
  | .revocationUserEpoch _ _ | .revocationEventKey _ => .revocationTask
  | .djangoSession _ => .session
  | .favorite _ _ => .favorite
  | .productView _ _ _ => .productView
  | .productMetric _ => .productMetric
  | .globalRoom | .directPair _ _ => .room
  | .conversationRoom _ | .productConversation _ _ _ => .conversation
  | .participant _ _ => .participant
  | .clientMessage _ _ _ => .message
  | .notification _ _ => .notification
  | .nonCancelledTrade _ => .trade
  | .tradeVersion _ _ => .tradeHistory
  | .productImagePosition _ _ => .productImage
  | .deletionIntentKey _ => .deletionIntent
  | .reviewDirection _ _ => .review
  | .visibilityKey _ => .visibilityAction
  | .releaseAction _ => .release
  | .reporterUser _ _ | .reporterProduct _ _ => .report
  | .auditAction _ => .auditEvent
  | .scopeUser _ _ _ | .scopeProduct _ _ _ | .scopeReview _ _ _ => .scopeGrant
  | .mockAccountUser _ => .mockAccount
  | .ledgerAccountCode _ | .ledgerAccountMock _ => .ledgerAccount
  | .seedPerAccount _ => .journal
  | .transferJournal _ => .transfer
  | .requestKey _ _ | .requestTransfer _ => .request

/-- A table is the same in two stores. -/
def Table.agrees (t : Table) (s s' : Store) : Prop :=
  match t with
  | .user => s'.users = s.users
  | .sessionIndex => s'.sessionIndex = s.sessionIndex
  | .revocationTask => s'.revocationTasks = s.revocationTasks
  | .session => s'.sessions = s.sessions
  | .product => s'.products = s.products
  | .productImage => s'.productImages = s.productImages
  | .deletionIntent => s'.deletionIntents = s.deletionIntents
  | .favorite => s'.favorites = s.favorites
  | .productView => s'.productViews = s.productViews
  | .productMetric => s'.productMetrics = s.productMetrics
  | .room => s'.rooms = s.rooms
  | .participant => s'.participants = s.participants
  | .message => s'.messages = s.messages
  | .conversation => s'.conversations = s.conversations
  | .notification => s'.notifications = s.notifications
  | .trade => s'.trades = s.trades
  | .tradeHistory => s'.tradeHistory = s.tradeHistory
  | .review => s'.reviews = s.reviews
  | .visibilityAction => s'.visibilityActions = s.visibilityActions
  | .action => s'.actions = s.actions
  | .release => s'.releases = s.releases
  | .report => s'.reports = s.reports
  | .auditEvent => s'.auditEvents = s.auditEvents
  | .scopeGrant => s'.scopeGrants = s.scopeGrants
  | .mockAccount => s'.accounts = s.accounts
  | .ledgerAccount => s'.ledgerAccounts = s.ledgerAccounts
  | .journal => s'.journals = s.journals
  | .transfer => s'.transfers = s.transfers
  | .request => s'.requests = s.requests
  | .safety => s'.safety = s.safety

/-- An index looks at its table only. -/
theorem Index.present_congr {i : Index} {s s' : Store} (h : i.table.agrees s s') :
    i.present s' = i.present s := by
  cases i with
  | pk t n =>
      cases t <;> simp only [Index.table, Table.agrees] at h <;>
        simp only [Index.present, Table.present, h]
  | _ =>
      simp only [Index.table, Table.agrees] at h
      simp only [Index.present, h]

/-- The tables that a row lock protects something of. -/
def Table.guarded : Table → List Table
  | .user => [.user, .action, .favorite, .notification, .product, .trade, .message,
      .revocationTask]
  | .product => [.product, .action]
  | .revocationTask => [.revocationTask]
  | .trade => [.trade]
  | .review => [.visibilityAction]
  | .mockAccount => [.mockAccount]
  | .action => [.release]
  | .scopeGrant => [.scopeGrant]
  | .safety => [.safety]
  | _ => []

/-- What belongs to a user is in these tables. -/
theorem OwnedSame.of_tables {n : Nat} {s s' : Store} (hfavorites : s'.favorites = s.favorites)
    (hnotifications : s'.notifications = s.notifications) (hproducts : s'.products = s.products)
    (htrades : s'.trades = s.trades) (hmessages : s'.messages = s.messages)
    (htasks : s'.revocationTasks = s.revocationTasks) : OwnedSame n s s' where
  favorites r hr _ := by rw [← hfavorites]; exact hr
  notifications r hr _ := by rw [← hnotifications]; exact hr
  products r hr _ := by rw [← hproducts]; exact List.mem_map_of_mem hr
  reserved t ht hp hs := ⟨t, by rw [← htrades]; exact ht, rfl, hp, hs⟩
  messages := by rw [hmessages]
  tasks := by rw [htasks]

/-- A row is the same where the tables that guard it agree. -/
theorem rowSame_congr {t : Table} {n : Nat} {s s' : Store}
    (h : ∀ t' ∈ t.guarded, t'.agrees s s') : rowSame t n s s' := by
  have stays : ∀ {ρ : Type} (pk : ρ → Nat) {rows rows' : List ρ}, rows' = rows →
      RowStays pk n rows rows' := by
    intro ρ pk rows rows' he
    rw [he]
    exact RowStays.refl pk n rows
  cases t with
  | user =>
      have ha : s'.actions = s.actions := h .action (by decide)
      refine ⟨stays _ (h .user (by decide)), by rw [ha], ?_⟩
      exact OwnedSame.of_tables (h .favorite (by decide)) (h .notification (by decide))
        (h .product (by decide)) (h .trade (by decide)) (h .message (by decide))
        (h .revocationTask (by decide))
  | product =>
      have ha : s'.actions = s.actions := h .action (by decide)
      refine ⟨stays _ (h .product (by decide)), ?_⟩
      rw [ha]
  | revocationTask => exact stays _ (h .revocationTask (by decide))
  | trade => exact stays _ (h .trade (by decide))
  | review =>
      have hv : s'.visibilityActions = s.visibilityActions := h .visibilityAction (by decide)
      show s'.visibilityActions.filter _ = _
      rw [hv]
  | mockAccount => exact stays _ (h .mockAccount (by decide))
  | action =>
      have hr : s'.releases = s.releases := h .release (by decide)
      show s'.releases.filter _ = _
      rw [hr]
  | scopeGrant => exact stays _ (h .scopeGrant (by decide))
  | safety => exact fun _ _ => h .safety (by decide)
  | _ => trivial

/-- **ONE TABLE**: a write to one table respects the locks of others when it keeps
    what every commit keeps, the rows that others may have locked, the requests of
    their keys, and the index entries that others may be inserting. -/
theorem Respects.of_table {p : Platform} {held : List Lock} {s s' : Store}
    (t : Table) (hother : ∀ t', t' ≠ t → t'.agrees s s') (hkeep : Keeps s s')
    (hrow : ∀ t' n, t ∈ t'.guarded → Open held (.row t' n) → rowSame t' n s s')
    (hadvisory : ∀ key shared, t ∈ [Table.safety, Table.request] →
      Open held (.advisory key shared) → Lock.same p (.advisory key shared) s s')
    (hindex : ∀ i : Index, i.table = t → Open held (.unique i) →
      i.present s = false → i.present s' = false) : Respects p held s s' := by
  refine ⟨hkeep, fun l hl => ?_⟩
  cases l with
  | advisory key shared =>
      by_cases ht : t ∈ [Table.safety, Table.request]
      · exact hadvisory key shared ht hl
      · have hs : s'.safety = s.safety := hother .safety fun e => ht (by rw [← e]; decide)
        have hr : s'.requests = s.requests :=
          hother .request fun e => ht (by rw [← e]; decide)
        exact ⟨fun _ _ => hs, by rw [hr]⟩
  | row t' n =>
      by_cases ht : t ∈ t'.guarded
      · exact hrow t' n ht hl
      · refine rowSame_congr fun t'' ht'' => hother t'' ?_
        rintro rfl
        exact ht ht''
  | unique i =>
      intro hi
      by_cases ht : i.table = t
      · exact hindex i ht hl hi
      · exact (Index.present_congr (hother _ ht)).trans hi

/-- A write to a table that no row lock, idempotency lock or index protects. -/
theorem Respects.of_free {p : Platform} {held : List Lock} {s s' : Store}
    (hother : ∀ t : Table, t.agrees s s') (hkeep : Keeps s s') :
    Respects p held s s' := by
  refine Respects.of_table .auditEvent (fun t _ => hother t) hkeep ?_ ?_ ?_
  · exact fun t n _ _ => rowSame_congr fun t' _ => hother t'
  · exact fun _ _ ht => absurd ht (by decide)
  · exact fun i _ _ h => (Index.present_congr (hother _)).trans h

/-! ## Sessions that follow the rules -/

/-- A proof context in which the other sessions follow the locking rules. -/
structure Abides (p : Platform) (Γ : Ctx Store Lock Exn Obs) : Prop where
  lawful : Lawful Γ
  rely : ∀ held s s', Γ.rely held s s' → (marketDiscipline p).rely held s s'
  leave : ∀ held s s', Respects p held s s' → Γ.leave held s s'
  deferred : Γ.deferred = validateBalancedJournal

/-- A session whose writes may be any that respect the locks of others. -/
theorem market_abides {p : Platform} {R : Role Store Lock} (hR : R.Lawful)
    (hwrite : ∀ s s', R.write s s') {given shown : Obs → Nat → Store → Prop} :
    Abides p (market p R given shown) where
  lawful := market_lawful p hR given shown
  rely _ _ _ h := h
  leave _ s s' h := ⟨h, hwrite s s'⟩
  deferred := rfl

section Abides

variable {p : Platform} {Γ : Ctx Store Lock Exn Obs} {w w' : World Store Lock Obs}

/-- Whatever others do between two statements, no row loses its identity. -/
theorem Abides.keeps (hA : Abides p Γ) (h : Near Γ w w') : Keeps w.db w'.db :=
  (hA.rely _ _ _ h.db).1

/-- What a held lock protects is the same at the next statement. -/
theorem Abides.same (hA : Abides p Γ) (h : Near Γ w w') {l : Lock}
    (hl : l ∈ w.sess.held) : l.same p w.db w'.db :=
  (hA.rely _ _ _ h.db).2 l hl

end Abides

end Market
