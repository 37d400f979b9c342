import Marketplace.LedgerInvariant
import Marketplace.RevocationSpecs
import Marketplace.UserRuns

/-! # The outbox of revocations in every run

    A worker claims a task under its row lock, works outside any transaction for as long
    as it takes, and ends the task in another transaction, which does not look at the
    row again.  As long as every end finds the row in the attempt that the worker
    claimed, a completed task stays as it is and only the worker of the current attempt
    ends it.  A worker that was overtaken breaks both. -/

namespace Market

open TxnProgram TxnInterleaving TxnLogic TxnProtection TxnSoundness TxnBody TxnFrames
  TxnInvariants TxnSchedule

variable {p : Platform} {Γ : Ctx Store Lock Exn Obs} {w : World Store Lock Obs}
  {s s' s'' : Store}

/-! ## The table -/

/-- `accounts_revocation_status_state_consistent`. -/
def RevocationTask.stateConsistent (t : RevocationTask) : Bool :=
  (t.status == .processing && t.leaseExpiresAt.isSome && t.heartbeatAt.isSome
      && t.completedAt.isNone) ||
    ((t.status == .pending || t.status == .retry) && t.leaseExpiresAt.isNone
      && t.heartbeatAt.isNone && t.completedAt.isNone) ||
    (t.status == .completed && t.leaseExpiresAt.isNone && t.heartbeatAt.isNone
      && t.completedAt.isSome)

/-- `accounts_revocation_lease_after_heartbeat`. -/
def RevocationTask.leaseConsistent (t : RevocationTask) : Bool :=
  match t.leaseExpiresAt, t.heartbeatAt with
  | none, none => true
  | some lease, some heartbeat => decide (heartbeat ≤ lease)
  | _, _ => false

def RevocationEffect.all : List RevocationEffect :=
  [.sessionsDeleted, .socketsClosed, .presenceCleared]

/-- All effects of the attempt were done. -/
def Revoked (task attempt : Nat) (effects : List EffectLog) : Prop :=
  ∀ effect ∈ RevocationEffect.all, ⟨task, attempt, effect⟩ ∈ effects

instance (task attempt : Nat) (effects : List EffectLog) :
    Decidable (Revoked task attempt effects) :=
  inferInstanceAs (Decidable (∀ effect ∈ RevocationEffect.all, _ ∈ effects))

def TaskKeys (s : Store) : Prop := (s.revocationTasks.map (·.pk)).Nodup

instance (s : Store) : Decidable (TaskKeys s) :=
  inferInstanceAs (Decidable (s.revocationTasks.map (·.pk)).Nodup)

/-- The constraints of the table, and that a completed task was revoked in one attempt. -/
structure TaskInv (s : Store) : Prop where
  keys : TaskKeys s
  epoch : ∀ t ∈ s.revocationTasks, 0 < t.authEpoch
  state : ∀ t ∈ s.revocationTasks, t.stateConsistent = true
  lease : ∀ t ∈ s.revocationTasks, t.leaseConsistent = true
  done : ∀ t ∈ s.revocationTasks, t.status = .completed →
    Revoked t.pk t.attemptCount s.effects

instance (s : Store) : Decidable (TaskInv s) :=
  decidable_of_iff (TaskKeys s ∧
    (∀ t ∈ s.revocationTasks, 0 < t.authEpoch) ∧
    (∀ t ∈ s.revocationTasks, t.stateConsistent = true) ∧
    (∀ t ∈ s.revocationTasks, t.leaseConsistent = true) ∧
    ∀ t ∈ s.revocationTasks, t.status = .completed →
      Revoked t.pk t.attemptCount s.effects)
    ⟨fun ⟨h1, h2, h3, h4, h5⟩ => ⟨h1, h2, h3, h4, h5⟩,
      fun h => ⟨h.keys, h.epoch, h.state, h.lease, h.done⟩⟩

/-- What may happen to a task: a claim of a task that is not completed and not leased, or
    the end of an attempt. -/
inductive TaskChange (effects : List EffectLog) (t : RevocationTask) :
    RevocationTask → Prop where
  | same : TaskChange effects t t
  | claimed (now : Time) : t.status ≠ .completed → t.leased now = false →
      TaskChange effects t (t.claimed now t)
  | retried (now : Time) (error : String) : t.status = .processing →
      TaskChange effects t (t.retried now error)
  | finished (now : Time) : t.status = .processing → Revoked t.pk t.attemptCount effects →
      TaskChange effects t (t.finished now)

/-- A task keeps its user, epoch and key. -/
theorem TaskChange.identity {effects : List EffectLog} {t t' : RevocationTask}
    (h : TaskChange effects t t') : t'.identity = t.identity := by
  cases h <;> rfl

/-- **STEP**, of one row: it stays consistent. -/
theorem TaskChange.consistent {effects : List EffectLog} {t t' : RevocationTask}
    (h : TaskChange effects t t') (hstate : t.stateConsistent = true)
    (hlease : t.leaseConsistent = true) :
    t'.stateConsistent = true ∧ t'.leaseConsistent = true := by
  cases h with
  | same => exact ⟨hstate, hlease⟩
  | claimed now _ _ => exact ⟨rfl, decide_eq_true (Nat.le_add_right _ _)⟩
  | retried now error _ => exact ⟨rfl, rfl⟩
  | finished now _ _ => exact ⟨rfl, rfl⟩

/-- A task that is done has had its effects. -/
theorem TaskChange.done {effects : List EffectLog} {t t' : RevocationTask}
    (h : TaskChange effects t t')
    (hdone : t.status = .completed → Revoked t.pk t.attemptCount effects)
    (hstatus : t'.status = .completed) : Revoked t'.pk t'.attemptCount effects := by
  cases h with
  | same => exact hdone hstatus
  | claimed now _ _ => exact nomatch hstatus
  | retried now error _ => exact nomatch hstatus
  | finished now _ hrevoked => exact hrevoked

/-- What a commit does to the table: rows change one by one, and new ones are unclaimed. -/
structure OutboxStep (s s' : Store) : Prop where
  tasks : ∃ (g : RevocationTask → RevocationTask) (new : List RevocationTask),
    s'.revocationTasks = s.revocationTasks.map g ++ new ∧
    (∀ t ∈ s.revocationTasks, TaskChange s.effects t (g t)) ∧
    (∀ t ∈ new, t.Unclaimed ∧ 0 < t.authEpoch ∧ t.pk ∉ s.revocationTasks.map (·.pk)) ∧
    (new.map (·.pk)).Nodup
  effects : s.effects <+: s'.effects

/-- Who leaves the tasks alone and only logs makes a step. -/
theorem OutboxStep.of_same (htasks : s'.revocationTasks = s.revocationTasks)
    (heffects : s.effects <+: s'.effects) : OutboxStep s s' where
  tasks := ⟨id, [], by rw [htasks, List.map_id, List.append_nil], fun _ _ => .same,
    fun _ h => (nomatch h), List.nodup_nil⟩
  effects := heffects

/-- **STEP**: the constraints are kept. -/
theorem OutboxStep.inv (h : OutboxStep s s') (hi : TaskInv s) : TaskInv s' := by
  obtain ⟨g, new, htasks, hchange, hnew, hnodup⟩ := h.tasks
  have hpk : ∀ t ∈ s.revocationTasks, (g t).pk = t.pk := fun t ht =>
    congrArg Prod.fst (hchange t ht).identity
  have hmap : (s.revocationTasks.map g).map (·.pk) = s.revocationTasks.map (·.pk) := by
    rw [List.map_map]
    exact List.map_congr_left hpk
  -- a row of the new table is a changed one or an unclaimed one
  have hrows : ∀ t' ∈ s'.revocationTasks, (∃ t ∈ s.revocationTasks, t' = g t) ∨ t' ∈ new := by
    intro t' ht'
    rw [htasks] at ht'
    rcases List.mem_append.mp ht' with ht' | ht'
    · obtain ⟨t, ht, rfl⟩ := List.mem_map.mp ht'
      exact Or.inl ⟨t, ht, rfl⟩
    · exact Or.inr ht'
  refine ⟨?_, fun t' ht' => ?_, fun t' ht' => ?_, fun t' ht' => ?_, fun t' ht' hdone => ?_⟩
  · rw [TaskKeys, htasks, List.map_append, hmap]
    refine List.nodup_append'.mpr ⟨hi.keys, hnodup, ?_⟩
    intro n hn hn'
    obtain ⟨t, ht, rfl⟩ := List.mem_map.mp hn'
    exact (hnew t ht).2.2 hn
  · rcases hrows t' ht' with ⟨t, ht, rfl⟩ | hn
    · have hepoch : (g t).authEpoch = t.authEpoch :=
        congrArg (fun i => i.2.2.2) (hchange t ht).identity
      rw [hepoch]
      exact hi.epoch t ht
    · exact (hnew t' hn).2.1
  · rcases hrows t' ht' with ⟨t, ht, rfl⟩ | hn
    · exact ((hchange t ht).consistent (hi.state t ht) (hi.lease t ht)).1
    · obtain ⟨hstatus, -, hlease, hheartbeat, hcompleted⟩ := (hnew t' hn).1
      rw [RevocationTask.stateConsistent, hstatus, hlease, hheartbeat, hcompleted]
      rfl
  · rcases hrows t' ht' with ⟨t, ht, rfl⟩ | hn
    · exact ((hchange t ht).consistent (hi.state t ht) (hi.lease t ht)).2
    · obtain ⟨-, -, hlease, hheartbeat, -⟩ := (hnew t' hn).1
      rw [RevocationTask.leaseConsistent, hlease, hheartbeat]
  · rcases hrows t' ht' with ⟨t, ht, rfl⟩ | hn
    · exact fun effect he => h.effects.subset
        ((hchange t ht).done (hi.done t ht) hdone effect he)
    · rw [(hnew t' hn).1.status] at hdone
      exact nomatch hdone

/-- Tasks keep their identity, their attempts are counted up, and completed ones stay as
    they are. -/
def TasksOnward (s s' : Store) : Prop :=
  ∀ t ∈ s.revocationTasks, ∃ t' ∈ s'.revocationTasks, t'.identity = t.identity ∧
    t.attemptCount ≤ t'.attemptCount ∧ (t.status = .completed → t' = t)

theorem TasksOnward.refl (s : Store) : TasksOnward s s :=
  fun t ht => ⟨t, ht, rfl, Nat.le_refl _, fun _ => rfl⟩

/-- Tasks go onward step by step. -/
theorem TasksOnward.trans (h : TasksOnward s s') (h' : TasksOnward s' s'') :
    TasksOnward s s'' := by
  intro t ht
  obtain ⟨t1, ht1, hid, hcount, hdone⟩ := h t ht
  obtain ⟨t2, ht2, hid', hcount', hdone'⟩ := h' t1 ht1
  refine ⟨t2, ht2, hid'.trans hid, Nat.le_trans hcount hcount', fun hd => ?_⟩
  rw [hdone' (by rw [hdone hd]; exact hd), hdone hd]

/-- Attempts are counted up, and a completed task stays. -/
theorem TaskChange.onward {effects : List EffectLog} {t t' : RevocationTask}
    (h : TaskChange effects t t') :
    t.attemptCount ≤ t'.attemptCount ∧ (t.status = .completed → t' = t) := by
  cases h with
  | same => exact ⟨Nat.le_refl _, fun _ => rfl⟩
  | claimed now hstatus _ => exact ⟨Nat.le_succ _, fun h => absurd h hstatus⟩
  | retried now error hstatus =>
      exact ⟨Nat.le_refl _, fun h => by rw [hstatus] at h; exact nomatch h⟩
  | finished now hstatus _ =>
      exact ⟨Nat.le_refl _, fun h => by rw [hstatus] at h; exact nomatch h⟩

/-- A step goes onward. -/
theorem OutboxStep.onward (h : OutboxStep s s') : TasksOnward s s' := by
  obtain ⟨g, new, htasks, hchange, -, -⟩ := h.tasks
  intro t ht
  refine ⟨g t, ?_, (hchange t ht).identity, (hchange t ht).onward⟩
  rw [htasks]
  exact List.mem_append_left _ (List.mem_map_of_mem ht)

/-! ## What the operations do to the table -/

/-- One locked row is changed. -/
theorem OutboxStep.of_update {t : RevocationTask} {f : RevocationTask → RevocationTask}
    (hkeys : TaskKeys s) (ht : t ∈ s.revocationTasks)
    (hs' : s' = updateTask t.pk f s) (hchange : TaskChange s.effects t (f t)) :
    OutboxStep s s' := by
  rw [hs']
  refine ⟨⟨fun x => if x.pk = t.pk then f x else x, [], (List.append_nil _).symm,
    fun x hx => ?_, fun _ h => (nomatch h), List.nodup_nil⟩, List.prefix_rfl⟩
  show TaskChange s.effects x (if x.pk = t.pk then f x else x)
  by_cases hpk : x.pk = t.pk
  · rw [if_pos hpk, eq_of_key hkeys hx ht hpk]
    exact hchange
  · rw [if_neg hpk]
    exact .same

/-- A task that was found or added. -/
theorem TaskEnd.outboxStep {user authEpoch : Nat} {task : RevocationTask} {created : Bool}
    {held : List Lock} {f : Store → Store} (h : TaskEnd user authEpoch task created held s f)
    (hepoch : 0 < authEpoch) (heffects : (f s).effects = s.effects) : OutboxStep s (f s) := by
  have hprefix : s.effects <+: (f s).effects := by
    rw [heffects]
  cases h with
  | found _ _ _ _ hf => exact .of_same (hf s) hprefix
  | added _ _ he _ hnew hpk _ hf =>
      refine ⟨⟨id, [task], ?_, fun _ _ => .same, fun t ht => ?_, List.nodup_singleton _⟩,
        hprefix⟩
      · rw [List.map_id]
        exact hf s
      · rw [List.mem_singleton.mp ht]
        refine ⟨hnew, by rw [he]; exact hepoch, fun hm => ?_⟩
        obtain ⟨x, hx, hxpk⟩ := List.mem_map.mp hm
        have hfree := hpk.free
        simp only [Index.present, Table.present, List.any_eq_false, beq_iff_eq] at hfree
        exact hfree x hx hxpk

/-- A withdrawal adds a task. -/
theorem WithdrawalDone.outboxStep {user : Nat} {r : WithdrawalResult}
    (h : WithdrawalDone Γ user r w) : OutboxStep w.db w.view := by
  cases h with
  | replayed _ h =>
      rw [view_of_id h.pend]
      exact .of_same rfl List.prefix_rfl
  | withdrawn u now scope favorites notifications _ h =>
      refine h.task.outboxStep (Nat.succ_pos _) ?_
      rw [h.writes.rest]

/-- So does the preparation of one. -/
theorem Prepared.outboxStep {user authEpoch : Nat} {r : RevocationPreparation}
    (h : Prepared user authEpoch r w) (hepoch : 0 < authEpoch) :
    OutboxStep w.db w.view := by
  refine h.task.outboxStep hepoch ?_
  rw [h.rest]

/-! ## The history of a worker -/

/-- The session saw the row in the attempt that it is about to end, which it had claimed
    before. -/
def Owned (h : List (Event Store Obs)) (t : RevocationTask) : Prop :=
  ∃ attempt, (∃ now db, Event.marked now db (.ending t.pk attempt) ∈ h ∧
    t ∈ db.revocationTasks) ∧ Claimed t.pk attempt (commitsOf h)

/-- What a commit of a session with this history does to a row. -/
inductive TaskTurn (h : List (Event Store Obs)) (t : RevocationTask) : RevocationTask → Prop where
  | same : TaskTurn h t t
  | claimed (now : Time) : t.status ≠ .completed → t.leased now = false →
      TaskTurn h t (t.claimed now t)
  | retried (now : Time) (error : String) : Owned h t → TaskTurn h t (t.retried now error)
  | finished (now : Time) : Owned h t → TaskTurn h t (t.finished now)

/-- The commit takes turns that the history before it allows. -/
def TakesTurns (h : List (Event Store Obs)) (s s' : Store) : Prop :=
  TaskKeys s → ∀ t ∈ s.revocationTasks, ∃ t' ∈ s'.revocationTasks, TaskTurn h t t'

/-- Every commit of the history took such turns. -/
def Fenced : List (Event Store Obs) → Prop
  | [] => True
  | .marked _ _ _ :: h => Fenced h
  | .committed s s' :: h => TakesTurns h s s' ∧ Fenced h

/-- Who adds tasks only takes no turn. -/
theorem takesTurns_same {h : List (Event Store Obs)}
    (htasks : s.revocationTasks <+: s'.revocationTasks) : TakesTurns h s s' :=
  fun _ t ht => ⟨t, htasks.subset ht, .same⟩

/-- One locked row takes a turn. -/
theorem takesTurns_update {h : List (Event Store Obs)} {t : RevocationTask}
    {f : RevocationTask → RevocationTask} (ht : t ∈ s.revocationTasks)
    (hs' : s' = updateTask t.pk f s) (hturn : TaskTurn h t (f t)) : TakesTurns h s s' := by
  intro hkeys x hx
  rw [hs']
  refine ⟨if x.pk = t.pk then f x else x, List.mem_map_of_mem hx, ?_⟩
  by_cases hpk : x.pk = t.pk
  · rw [if_pos hpk, eq_of_key hkeys hx ht hpk]
    exact hturn
  · rw [if_neg hpk]
    exact .same

/-- The last commit of a fenced history. -/
theorem Fenced.last {h : List (Event Store Obs)} {l : List (Store × Store)}
    (hf : Fenced h) (hc : commitsOf h = (s, s') :: l) :
    ∃ h', h' ⊆ h ∧ commitsOf h' = l ∧ TakesTurns h' s s' := by
  induction h with
  | nil => exact nomatch hc
  | cons e h ih =>
      cases e with
      | marked now db v =>
          obtain ⟨h', hsub, hrest⟩ := ih hf hc
          exact ⟨h', fun x hx => List.mem_cons_of_mem _ (hsub hx), hrest⟩
      | committed a b =>
          have hcons : (a, b) :: commitsOf h = (s, s') :: l := hc
          obtain ⟨hpair, hl⟩ := List.cons.inj hcons
          cases hpair
          exact ⟨h, fun x hx => List.mem_cons_of_mem _ hx, hl, hf.1⟩

/-- What is fenced was fenced before. -/
theorem Fenced.suffix {h h' : List (Event Store Obs)} (hf : Fenced h') (hs : h <:+ h') :
    Fenced h := by
  obtain ⟨l, rfl⟩ := hs
  induction l with
  | nil => exact hf
  | cons e l ih =>
      cases e with
      | marked now db v => exact ih hf
      | committed a b => exact ih hf.2

/-- A context that may commit what a worker commits. -/
structure WorkerCommits (Γ : Ctx Store Lock Exn Obs) : Prop where
  shown : ∀ task attempt now s, Γ.given (.ending task attempt) now s →
    Γ.shown (.ending task attempt) now s
  quiet : ∀ w : World Store Lock Obs, Γ.leave w.sess.held w.db w.view →
    w.view.users = w.db.users → OutboxStep w.db w.view → Γ.guar w.sess.held w.db w.view
  claim : ∀ task now r (w : World Store Lock Obs), Γ.leave w.sess.held w.db w.view →
    ClaimEnd task now w r → Γ.guar w.sess.held w.db w.view
  retry : ∀ task attempt now error t (w : World Store Lock Obs),
    Γ.leave w.sess.held w.db w.view →
    AttemptEnd Γ task attempt (RevocationTask.retried now error) t w →
    Γ.guar w.sess.held w.db w.view
  finish : ∀ task attempt now t (w : World Store Lock Obs),
    Γ.leave w.sess.held w.db w.view →
    AttemptEnd Γ task attempt (RevocationTask.finished now) t w →
    (∀ effect, ⟨task, attempt, effect⟩ ∈ w.db.effects) → Γ.guar w.sess.held w.db w.view

/-- Such a worker runs whole transactions. -/
theorem WorkerCommits.anyHistory (h : WorkerCommits Γ) : WorkerRules Γ fun _ => True where
  mark _ _ _ _ _ := trivial
  shown := h.shown
  quiet w hleave husers htasks heffects _ :=
    ⟨h.quiet w hleave husers (.of_same htasks heffects), trivial⟩
  claim task now r w hleave hp _ := ⟨h.claim task now r w hleave hp, trivial⟩
  retry task attempt now error t w hleave hp _ _ :=
    ⟨h.retry task attempt now error t w hleave hp, trivial⟩
  finish task attempt now t w hleave hp heffects _ _ :=
    ⟨h.finish task attempt now t w hleave hp heffects, trivial⟩

/-- Its commits fence its history. -/
theorem WorkerCommits.fenced (h : WorkerCommits Γ) : WorkerRules Γ Fenced where
  mark _ _ _ _ hf := hf
  shown := h.shown
  quiet w hleave husers htasks heffects hf := by
    refine ⟨h.quiet w hleave husers (.of_same htasks heffects), takesTurns_same ?_, hf⟩
    rw [htasks]
  claim task now r w hleave hp hf := by
    refine ⟨h.claim task now r w hleave hp, ?_, hf⟩
    cases hp with
    | answered done hpend =>
        refine takesTurns_same ?_
        rw [view_of_id hpend]
    | claimed t ht _ _ hstatus hleased hpend =>
        exact takesTurns_update ht (by rw [World.view, hpend]) (.claimed now hstatus hleased)
  retry task attempt now error t w hleave hp hc hf := by
    refine ⟨h.retry task attempt now error t w hleave hp, ?_, hf⟩
    obtain ⟨n, db, -, ht, hm⟩ := hp.seen
    refine takesTurns_update hp.row (by rw [World.view, hp.pend])
      (.retried now error ⟨attempt, ⟨n, db, ?_, ht⟩, ?_⟩)
    · rw [hp.pk]
      exact hm
    · rw [hp.pk]
      exact hc
  finish task attempt now t w hleave hp heffects hc hf := by
    refine ⟨h.finish task attempt now t w hleave hp heffects, ?_, hf⟩
    obtain ⟨n, db, -, ht, hm⟩ := hp.seen
    refine takesTurns_update hp.row (by rw [World.view, hp.pend])
      (.finished now ⟨attempt, ⟨n, db, ?_, ht⟩, ?_⟩)
    · rw [hp.pk]
      exact hm
    · rw [hp.pk]
      exact hc

/-! ## The operations -/

/-- Withdrawals and the preparation of a task, the workers of the outbox, and the
    operations of the moderation that bump an epoch. -/
inductive RevocationOp where
  | withdrawAccount (user : Nat) (password : String)
  | prepareWithdrawalRevocation (user authEpoch : Int)
  | processRevocationTask (failure : Nat → Option String) (task : Nat)
  | processWithdrawalRevocations (failure : Nat → Option String) (limit : Int)
  | submitReport (reporter : Nat) (targetType : TargetType) (target : Nat)
      (context : ReportContext) (reason : String)
  | evaluateThreshold (targetType : TargetType) (target : Nat)
  | revokeScope (actor : Actor) (grant : Nat) (reason : String) (version : Int)
      (reauthenticatedAt : Option Time)

/-- The program of an operation; only the answer of a withdrawal matters here. -/
def RevocationOp.run (p : Platform) : RevocationOp → M (Option WithdrawalResult)
  | .withdrawAccount user password => do
      let r ← Market.withdrawAccount user password
      return some r
  | .prepareWithdrawalRevocation user authEpoch => do
      let _ ← Market.prepareWithdrawalRevocation user authEpoch
      return none
  | .processRevocationTask failure task => do
      let _ ← Market.processRevocationTask failure task
      return none
  | .processWithdrawalRevocations failure limit => do
      let _ ← Market.processWithdrawalRevocations failure limit
      return none
  | .submitReport reporter targetType target context reason => do
      let _ ← Market.submitReport reporter targetType target context reason
      return none
  | .evaluateThreshold targetType target => do
      let _ ← Market.evaluateThreshold targetType target
      return none
  | .revokeScope actor grant reason version reauthenticatedAt => do
      let _ ← Market.revokeScope p actor grant reason version reauthenticatedAt
      return none

/-- The tasks and the log of effects stay as they are. -/
def TasksQuiet (s s' : Store) : Prop :=
  s'.revocationTasks = s.revocationTasks ∧ s'.effects = s.effects

/-- To leave the tasks alone is a relation of steps. -/
theorem tasksQuiet_composes : Composes TasksQuiet where
  refl _ := ⟨rfl, rfl⟩
  trans _ _ _ h h' := ⟨h'.1.trans h.1, h'.2.trans h.2⟩

/-- Only one kind of writes touches the tasks. -/
theorem tasksQuiet_licensed {k : WriteKind} (hk : k ≠ .task) {held : List Lock}
    {f : Store → Store} (h : Licensed held k f) (s : Store) : TasksQuiet s (f s) := by
  cases h with
  | task _ _ _ _ _ => exact absurd rfl hk
  | _ => exact ⟨rfl, rfl⟩

/-- To leave them alone is a step. -/
theorem TasksQuiet.outboxStep (h : TasksQuiet s s') : OutboxStep s s' :=
  .of_same h.1 (by rw [h.2])

/-- What the operations of the moderation do in a context that may leave the outbox
    alone. -/
theorem top_moderation (hmay : ∀ ks : List WriteKind, .task ∉ ks → MayRun Γ ks) :
    (∀ reporter targetType target context reason,
      Top Γ (submitReport reporter targetType target context reason)) ∧
    (∀ targetType target, Top Γ (evaluateThreshold targetType target)) ∧
    ∀ actor grant reason version at', Top Γ (revokeScope p actor grant reason version at') := by
  refine ⟨fun reporter targetType target context reason => ?_, fun targetType target => ?_,
    fun actor grant reason version at' => ?_⟩
  · exact top_submitReport (fun reason' => hmay reportWrites (by decide) _ fun _ hΓ' hp hs =>
      safe_submitReportBody hΓ' hp hs reporter targetType target context reason') reason
  · exact hmay sanctionWrites (by decide) _ fun _ hΓ' hp hs =>
      safe_evaluateThresholdBody hΓ' hp hs targetType target
  · exact top_revokeScope (fun reason' => hmay [.grant, .bump, .adminAudit] (by decide) _
      fun _ hΓ' hp hs => safe_revokeScopeBody hΓ' hp hs actor grant reason' version at')
      (top_audit (hmay [.adminAudit] (by decide))) reason

/-- Withdrawals and preparations, in a context that may commit what they do. -/
theorem top_preparation (hA : Abides p Γ) (user authEpoch : Int)
    (hguar : ∀ r (w : World Store Lock Obs), Γ.leave w.sess.held w.db w.view →
      Prepared user.toNat authEpoch.toNat r w → 0 < authEpoch.toNat →
      Γ.guar w.sess.held w.db w.view) :
    Top Γ (prepareWithdrawalRevocation user authEpoch) := by
  intro w hi
  refine wp_bind (wp_raiseIf (fun _ => hi) fun hpos => ?_)
  rw [Bool.or_eq_false_iff, decide_eq_false_iff_not, decide_eq_false_iff_not] at hpos
  have hepoch : 0 < authEpoch.toNat := by omega
  refine wp_recorded (H := fun _ => True) (P := fun r w1 => Prepared user.toNat
    authEpoch.toNat r w1) hA.lawful (fun _ _ _ _ _ => trivial) hi trivial
    (fun w' hpend hopen => body_prepareWithdrawalRevocation hA _ _ hpend hopen)
    (fun _ _ _ hp he => hp.env hA he) (fun e w3 hidle _ _ _ => hidle) ?_
  intro r w2 _ _ hleave hp _
  exact ⟨hguar r w2 hleave hp hepoch, publish_idle w2⟩

/-- The operations in a context that may commit what they do. -/
theorem top_revocationOp (hA : Abides p Γ) (hrules : WorkerRules Γ fun _ => True)
    (hwithdraw : ∀ user r (w : World Store Lock Obs), Γ.leave w.sess.held w.db w.view →
      WithdrawalDone Γ user r w → Γ.guar w.sess.held w.db w.view)
    (hprepare : ∀ user authEpoch r (w : World Store Lock Obs),
      Γ.leave w.sess.held w.db w.view → Prepared user authEpoch r w → 0 < authEpoch →
      Γ.guar w.sess.held w.db w.view)
    (hreport : ∀ reporter targetType target context reason,
      Top Γ (submitReport reporter targetType target context reason))
    (hevaluate : ∀ targetType target, Top Γ (evaluateThreshold targetType target))
    (hrevoke : ∀ actor grant reason version at',
      Top Γ (revokeScope p actor grant reason version at')) (op : RevocationOp) :
    Top Γ (op.run p) := by
  have hrested : ∀ {α : Type} {m : M α}, (∀ w, Rested (fun _ => True) w →
      wp Γ m (fun _ w' => Rested (fun _ => True) w') w) → Top Γ m :=
    fun hm w hi => wp_mono (fun _ _ h => h.1) (hm w ⟨hi, trivial⟩)
  cases op with
  | withdrawAccount user password =>
      exact Top.bind (top_withdrawAccount_done hA user password (hwithdraw user))
        fun _ => Top.ret _
  | prepareWithdrawalRevocation user authEpoch =>
      exact Top.bind (top_preparation hA user authEpoch (hprepare _ _)) fun _ => Top.ret _
  | processRevocationTask failure task =>
      exact Top.bind (hrested fun w h => wp_processRevocationTask hA hrules failure task h)
        fun _ => Top.ret _
  | processWithdrawalRevocations failure limit =>
      exact Top.bind (hrested fun w h =>
        wp_processWithdrawalRevocations hA hrules failure limit h) fun _ => Top.ret _
  | submitReport reporter targetType target context reason =>
      exact Top.bind (hreport reporter targetType target context reason) fun _ => Top.ret _
  | evaluateThreshold targetType target =>
      exact Top.bind (hevaluate targetType target) fun _ => Top.ret _
  | revokeScope actor grant reason version at' =>
      exact Top.bind (hrevoke actor grant reason version at') fun _ => Top.ret _

/-! ## Every run -/

/-- Every end of an attempt finds the task in that attempt. -/
def EndsOwn (v : Obs) (_ : Time) (s : Store) : Prop :=
  match v with
  | .ending task attempt => ∀ t ∈ s.revocationTasks, t.pk = task →
      t.status = .processing ∧ t.attemptCount = attempt
  | _ => True

instance (v : Obs) (now : Time) (s : Store) : Decidable (EndsOwn v now s) :=
  match v with
  | .ending task attempt => inferInstanceAs (Decidable (∀ t ∈ s.revocationTasks,
      t.pk = task → t.status = .processing ∧ t.attemptCount = attempt))
  | .savingUser _ => isTrue trivial
  | .sanctioning _ _ _ _ => isTrue trivial
  | .reserving _ _ _ _ => isTrue trivial
  | .listing _ => isTrue trivial
  | .bumping _ => isTrue trivial
  | .allocating _ => isTrue trivial
  | .deciding _ => isTrue trivial
  | .paged _ _ _ => isTrue trivial
  | .editing _ => isTrue trivial
  | .savingFile _ => isTrue trivial
  | .deletingFile _ => isTrue trivial

/-- The context of sessions that keep the constraints of the table. -/
def outboxCtx (p : Platform) : Ctx Store Lock Exn Obs :=
  market p ⟨fun _ _ => True, fun _ s s' => TaskInv s → OutboxStep s s'⟩ EndsOwn
    fun _ _ _ => True

theorem outboxCtx_abides (p : Platform) : Abides p (outboxCtx p) :=
  market_abides ⟨fun _ => trivial, fun _ _ _ _ _ => trivial⟩ fun _ _ => trivial

theorem outboxCtx_commits (p : Platform) : WorkerCommits (outboxCtx p) where
  shown _ _ _ _ _ := trivial
  quiet w hleave _ hstep := ⟨hleave.1, hleave.2, fun _ => hstep⟩
  claim task now r w hleave hp := by
    refine ⟨hleave.1, hleave.2, fun hi => ?_⟩
    cases hp with
    | answered done hpend =>
        rw [view_of_id hpend]
        exact .of_same rfl List.prefix_rfl
    | claimed t ht _ _ hstatus hleased hpend =>
        exact .of_update hi.keys ht (by rw [World.view, hpend]) (.claimed now hstatus hleased)
  retry task attempt now error t w hleave hp := by
    obtain ⟨n, db, hgiven, ht, -⟩ := hp.seen
    obtain ⟨hstatus, -⟩ := hgiven t ht hp.pk
    exact ⟨hleave.1, hleave.2, fun hi => .of_update hi.keys hp.row
      (by rw [World.view, hp.pend]) (.retried now error hstatus)⟩
  finish task attempt now t w hleave hp heffects := by
    obtain ⟨n, db, hgiven, ht, -⟩ := hp.seen
    obtain ⟨hstatus, hattempt⟩ := hgiven t ht hp.pk
    refine ⟨hleave.1, hleave.2, fun hi => .of_update hi.keys hp.row
      (by rw [World.view, hp.pend]) (.finished now hstatus ?_)⟩
    rw [hp.pk, hattempt]
    exact fun effect _ => heffects effect

/-- A context in which a commit may leave the outbox alone. -/
theorem mayRun_quiet (hA : Abides p Γ) (hshow : ShowsMarks Γ)
    (hguar : ∀ held s s', Γ.leave held s s' → TasksQuiet s s' → Γ.guar held s s')
    (ks : List WriteKind) (hks : .task ∉ ks) : MayRun Γ ks := by
  intro β m hm
  refine mayRun_of_frame hA.lawful hshow (hA.permits ks) tasksQuiet_composes
    (fun k hk _ _ hf s => tasksQuiet_licensed ?_ hf s) hguar m hm
  rintro rfl
  exact hks hk

/-- **OPERATIONS**, each transaction a step of the outbox. -/
theorem top_outbox (op : RevocationOp) : Top (outboxCtx p) (op.run p) := by
  obtain ⟨hreport, hevaluate, hrevoke⟩ := top_moderation (p := p)
    (mayRun_quiet (outboxCtx_abides p) (fun _ _ _ _ _ => trivial) fun _ _ _ hleave hquiet =>
      ⟨hleave.1, hleave.2, fun _ => hquiet.outboxStep⟩)
  exact top_revocationOp (outboxCtx_abides p) (outboxCtx_commits p).anyHistory
    (fun user r w hleave h => ⟨hleave.1, hleave.2, fun _ => h.outboxStep⟩)
    (fun user authEpoch r w hleave h hpos => ⟨hleave.1, hleave.2, fun _ => h.outboxStep hpos⟩)
    hreport hevaluate hrevoke op

/-- The workers of the outbox. -/
def RevocationOp.isWorker : RevocationOp → Bool
  | .processRevocationTask _ _ => true
  | .processWithdrawalRevocations _ _ => true
  | _ => false

/-- No row is changed or taken away. -/
def TasksKept (s s' : Store) : Prop := s.revocationTasks <+: s'.revocationTasks

/-- The context of a session whose history is followed: only workers change rows. -/
def historyCtx (p : Platform) (op : RevocationOp) : Ctx Store Lock Exn Obs :=
  market p ⟨fun _ _ => True, fun _ s s' => op.isWorker = false → TasksKept s s'⟩
    (fun _ _ _ => True) fun _ _ _ => True

theorem historyCtx_abides (p : Platform) (op : RevocationOp) : Abides p (historyCtx p op) :=
  market_abides ⟨fun _ => trivial, fun _ _ _ _ _ => trivial⟩ fun _ _ => trivial

theorem historyCtx_commits (p : Platform) {op : RevocationOp} (h : op.isWorker = true) :
    WorkerCommits (historyCtx p op) := by
  have hany : ∀ {held : List Lock} {s s' : Store}, (historyCtx p op).leave held s s' →
      (historyCtx p op).guar held s s' := fun hleave =>
    ⟨hleave.1, hleave.2, fun hc => by rw [h] at hc; exact nomatch hc⟩
  exact ⟨fun _ _ _ _ _ => trivial, fun _ hl _ _ => hany hl, fun _ _ _ _ hl _ => hany hl,
    fun _ _ _ _ _ _ hl _ => hany hl, fun _ _ _ _ _ hl _ _ => hany hl⟩

/-- A task that is found or made leaves the others. -/
theorem TaskEnd.kept {user authEpoch : Nat} {task : RevocationTask} {created : Bool}
    {held : List Lock} {f : Store → Store} (h : TaskEnd user authEpoch task created held s f) :
    TasksKept s (f s) := by
  cases h with
  | found _ _ _ _ hf =>
      rw [TasksKept, hf s]
  | added _ _ _ _ _ _ _ hf =>
      rw [TasksKept, hf s]
      exact List.prefix_append _ _

/-- A withdrawal leaves the tasks that are there. -/
theorem WithdrawalDone.kept {user : Nat} {r : WithdrawalResult}
    (h : WithdrawalDone Γ user r w) : TasksKept w.db w.view := by
  cases h with
  | replayed _ h =>
      rw [view_of_id h.pend]
      exact List.prefix_rfl
  | withdrawn u now scope favorites notifications _ h => exact h.task.kept

/-- Without a commit of a worker a history is fenced. -/
theorem fenced_of_kept {h : List (Event Store Obs)}
    (hc : ∀ e ∈ commitsOf h, TasksKept e.1 e.2) : Fenced h := by
  induction h with
  | nil => trivial
  | cons e h ih =>
      cases e with
      | marked now db v => exact ih hc
      | committed a b =>
          exact ⟨takesTurns_same (hc _ List.mem_cons_self),
            ih fun e he => hc e (List.mem_cons_of_mem _ he)⟩

/-- **HISTORY**: the whole history of a session is fenced. -/
theorem wp_history (op : RevocationOp) (hi : Idle w) (hhist : w.sess.hist = []) :
    wp (historyCtx p op) (op.run p) (fun _ w' => Fenced w'.sess.hist) w := by
  have hA := historyCtx_abides p op
  have hrested : Rested Fenced w := ⟨hi, by rw [hhist]; trivial⟩
  cases hworker : op.isWorker with
  | true =>
      have hrules := (historyCtx_commits p hworker).fenced
      have hret : ∀ {α : Type} {m : M α} {r : Option WithdrawalResult},
          wp (historyCtx p op) m (fun _ w' => Rested Fenced w') w →
          wp (historyCtx p op) (do let _ ← m; return r) (fun _ w' => Fenced w'.sess.hist) w := by
        intro α m r hm
        refine wp_bind (wp_mono ?_ hm)
        rintro (e | a) w' hr
        · exact hr.2
        · exact hr.2
      cases op with
      | processRevocationTask failure task =>
          exact hret (wp_processRevocationTask hA hrules failure task hrested)
      | processWithdrawalRevocations failure limit =>
          exact hret (wp_processWithdrawalRevocations hA hrules failure limit hrested)
      | _ => cases hworker
  | false =>
      have hkept : ∀ held s s', (historyCtx p op).guar held s s' → TasksKept s s' :=
        fun _ _ _ hg => hg.2.2 hworker
      have hnone : CommitsAre TasksKept w := by
        rw [CommitsAre, hhist]
        exact fun _ he => absurd he List.not_mem_nil
      suffices htop : Top (historyCtx p op) (op.run p) by
        exact wp_mono (fun _ _ h => fenced_of_kept h.2) (wp_commits hkept hnone (htop w hi))
      have hguar : ∀ held s s', (historyCtx p op).leave held s s' → TasksKept s s' →
          (historyCtx p op).guar held s s' := fun _ _ _ hl hk => ⟨hl.1, hl.2, fun _ => hk⟩
      obtain ⟨hreport, hevaluate, hrevoke⟩ := top_moderation (p := p)
        (mayRun_quiet hA (fun _ _ _ _ _ => trivial) fun _ _ _ hleave hquiet =>
          hguar _ _ _ hleave (by rw [TasksKept, hquiet.1]))
      cases op with
      | withdrawAccount user password =>
          exact Top.bind (top_withdrawAccount_done hA user password fun r w hleave h =>
            hguar _ _ _ hleave h.kept) fun _ => Top.ret _
      | prepareWithdrawalRevocation user authEpoch =>
          exact Top.bind (top_preparation hA user authEpoch fun r w hleave h _ =>
            hguar _ _ _ hleave h.task.kept) fun _ => Top.ret _
      | submitReport reporter targetType target context reason =>
          exact Top.bind (hreport reporter targetType target context reason) fun _ => Top.ret _
      | evaluateThreshold targetType target =>
          exact Top.bind (hevaluate targetType target) fun _ => Top.ret _
      | revokeScope actor grant reason version at' =>
          exact Top.bind (hrevoke actor grant reason version at') fun _ => Top.ret _
      | _ => cases hworker

/-- What a step of a session with these commits does to a row: a claim of a task that is
    neither completed nor leased, or the end of the attempt that the row is in, which is
    one that the session claimed. -/
inductive FencedChange (commits : List (Store × Store)) (t : RevocationTask) :
    RevocationTask → Prop where
  | same : FencedChange commits t t
  | claimed (now : Time) : t.status ≠ .completed → t.leased now = false →
      FencedChange commits t (t.claimed now t)
  | retried (now : Time) (error : String) : t.status = .processing →
      Claimed t.pk t.attemptCount commits → FencedChange commits t (t.retried now error)
  | finished (now : Time) : t.status = .processing →
      Claimed t.pk t.attemptCount commits → FencedChange commits t (t.finished now)

/-- A turn whose observation was of the row's own attempt. -/
theorem TaskTurn.fencedChange {h : List (Event Store Obs)} {t t' : RevocationTask}
    (hturn : TaskTurn h t t') (hsees : Sees EndsOwn h) : FencedChange (commitsOf h) t t' := by
  have hown : Owned h t → t.status = .processing ∧
      Claimed t.pk t.attemptCount (commitsOf h) := by
    rintro ⟨attempt, ⟨now, db, hm, ht⟩, hclaimed⟩
    have hgiven : ∀ x ∈ db.revocationTasks, x.pk = t.pk →
        x.status = .processing ∧ x.attemptCount = attempt := hsees now db _ hm
    obtain ⟨hstatus, hattempt⟩ := hgiven t ht rfl
    rw [hattempt]
    exact ⟨hstatus, hclaimed⟩
  cases hturn with
  | same => exact .same
  | claimed now hstatus hleased => exact .claimed now hstatus hleased
  | retried now error ho => exact .retried now error (hown ho).1 (hown ho).2
  | finished now ho => exact .finished now (hown ho).1 (hown ho).2

section Runs

variable {ι : Type} [DecidableEq ι] {ops : ι → RevocationOp} {now : Time}
  {c c' : Config ι Store Lock Exn Obs (Option WithdrawalResult)}

/-- **RUN**: the constraints of the table hold in every store reached. -/
theorem taskInv_reached (h : TaskInv s) (hr : Reached s now (fun i => (ops i).run p) c)
    (hown : AllSee (fun _ => EndsOwn) c) : TaskInv c.db :=
  top_invariant (I := TaskInv)
    (market_fits p _ (fun _ => ⟨fun _ => trivial, fun _ _ _ _ _ => trivial⟩) _ _)
    (fun i => top_outbox (ops i)) (fun _ _ _ h => False.elim h)
    (fun _ _ _ _ hi hg => (hg.2.2 hi).inv hi) hr hown h

/-- **RUN**: tasks go on. -/
theorem tasksOnward_reached (h : TaskInv s) (hr : Reached s now (fun i => (ops i).run p) c)
    (hr' : Reaches (postgres fun _ _ => False) c c') (hown : AllSee (fun _ => EndsOwn) c') :
    TasksOnward c.db c'.db := by
  refine (top_onward (I := fun d => TaskInv d ∧ TasksOnward c.db d)
    (market_fits p _ (fun _ => ⟨fun _ => trivial, fun _ _ _ _ _ => trivial⟩) _ _)
    (fun i => top_outbox (ops i)) (fun _ _ _ h => False.elim h) ?_ hr hr' hown
    ⟨taskInv_reached h hr (allSee_of_reaches hr' hown), TasksOnward.refl _⟩).2
  intro i held s s' ⟨hi, ho⟩ hg
  exact ⟨(hg.2.2 hi).inv hi, ho.trans (hg.2.2 hi).onward⟩

/-- **RUN**: the history of every session is fenced. -/
theorem fenced_reached (hr : Reached s now (fun i => (ops i).run p) c) (i : ι) :
    Fenced (c.sess i).hist := by
  have hfit : Fits (postgres fun _ _ => False) (fun j => historyCtx p (ops j)) :=
    market_fits p (fun j => ⟨fun _ _ => True, fun _ s s' =>
      (ops j).isWorker = false → TasksKept s s'⟩)
      (fun _ => ⟨fun _ => trivial, fun _ _ _ _ _ => trivial⟩) _ _
  obtain ⟨r, w, hf, hsuffix⟩ := run_history hfit (Q := fun _ _ w => Fenced w.sess.hist)
    (supported_start hfit.lawful fun j => wp_history (ops j) ⟨rfl, rfl, rfl⟩ rfl) hr
    (fun _ _ _ _ => trivial) i
  exact hf.suffix hsuffix

/-- **STEP**: what one session does to the tasks is fenced. -/
theorem fencedChange_step (h : TaskInv s) (hr : Reached s now (fun i => (ops i).run p) c)
    {i : ι} (hs : Step (postgres fun _ _ => False) (some i) c c')
    (hown : AllSee (fun _ => EndsOwn) c') :
    ∀ t ∈ c.db.revocationTasks, ∃ t' ∈ c'.db.revocationTasks,
      FencedChange (commitsOf (c.sess i).hist) t t' := by
  intro t ht
  rcases commits_step hs i with ⟨hsame, -⟩ | ⟨-, hc⟩
  · rw [hsame rfl]
    exact ⟨t, ht, .same⟩
  · obtain ⟨h', hsub, hl, hturns⟩ := (fenced_reached (hr.step hs) i).last hc
    have hkeys := (taskInv_reached h hr (allSee_of_step hs hown)).keys
    obtain ⟨t', ht', hturn⟩ := hturns hkeys t ht
    refine ⟨t', ht', ?_⟩
    rw [← hl]
    exact hturn.fencedChange ((hown i).tail hsub)

end Runs

/-- **FENCED OUTBOX**: in every interleaving of workers, withdrawals and the operations of
    the moderation in which every end of an attempt finds the task in that attempt, the
    table is consistent and a completed task was revoked in one attempt; completed tasks
    stay as they are; and a step that changes a task claims it, or ends the attempt it is
    in for the session that claimed that attempt. -/
theorem revocations_fenced {ι : Type} [DecidableEq ι] (p : Platform)
    (ops : ι → RevocationOp) {s : Store} {now : Time}
    {c c' : Config ι Store Lock Exn Obs (Option WithdrawalResult)} (h : TaskInv s)
    (hr : Reached s now (fun i => (ops i).run p) c)
    (hr' : Reaches (postgres fun _ _ => False) c c') (hown : AllSee (fun _ => EndsOwn) c') :
    TaskInv c.db ∧ TasksOnward c.db c'.db ∧
      ∀ i, Step (postgres fun _ _ => False) (some i) c c' →
        ∀ t ∈ c.db.revocationTasks, ∃ t' ∈ c'.db.revocationTasks,
          FencedChange (commitsOf (c.sess i).hist) t t' :=
  ⟨taskInv_reached h hr (allSee_of_reaches hr' hown), tasksOnward_reached h hr hr' hown,
    fun _ hs => fencedChange_step h hr hs hown⟩

/-! ## An overtaken worker -/

/-- A withdrawn user with a task that nobody has claimed. -/
def oneTask : Store where
  users := [{ pk := 1, username := "seller_one", isActive := false, authEpoch := 1,
              withdrawnAt := some 1000 }]
  sessionIndex := [{ pk := 2, user := 1, sessionKey := "key", authEpoch := 0,
                     lastSeenAt := 0 }]
  sessions := [{ sessionKey := "key", user := 1, authEpoch := .num 0 }]
  revocationTasks := [{ pk := 4, user := 1, eventKey := withdrawalEventKey 1 1,
                        authEpoch := 1 }]

/-- Two workers on the task; nothing fails. -/
def twoWorkers : Fin 2 → RevocationOp :=
  fun _ => .processRevocationTask (fun _ => none) 4

def twoWorkersStart : Config (Fin 2) Store Lock Exn Obs (Option WithdrawalResult) :=
  Config.start oneTask 1000 fun i => (twoWorkers i).run plainPlatform

/-- The first worker claims the task and stalls; its lease runs out, the second one claims
    the task and completes it; then the first one completes it again. -/
theorem completed_task_changed :
    ∃ c c' : Config (Fin 2) Store Lock Exn Obs (Option WithdrawalResult),
      Reached oneTask 1000 (fun i => (twoWorkers i).run plainPlatform) c ∧
        Reaches (postgres fun _ _ => False) c c' ∧ TaskInv oneTask ∧
        ∃ t ∈ c.db.revocationTasks, t.status = .completed ∧ t ∉ c'.db.revocationTasks := by
  have hplay : ((play validateBalancedJournal [.run 0 8 (fun k => 1000 + k),
      .run 1 200 (fun k => 200000000 + k)] twoWorkersStart).bind fun d =>
        (play validateBalancedJournal [.run 0 200 (fun k => 300000000 + k)] d).map fun d' =>
          (d.db.revocationTasks, d'.db.revocationTasks.map (·.completedAt))) =
      some ([{ pk := 4, user := 1, eventKey := withdrawalEventKey 1 1, authEpoch := 1,
               status := .completed, attemptCount := 2, completedAt := some 200000004 }],
        [some 300000003]) := by decide +kernel
  obtain ⟨c, c', hr, hr', hdone, hagain⟩ :=
    reaches_of_plays (D := postgres fun _ _ => False) (f := fun d => _) (g := fun d => _) hplay
  refine ⟨c, c', hr, hr', by decide, ?_⟩
  rw [hdone]
  refine ⟨_, List.mem_cons_self, rfl, fun hmem => ?_⟩
  have hsame := List.mem_map_of_mem (f := RevocationTask.completedAt) hmem
  rw [hagain] at hsame
  exact absurd hsame (by decide)

/-- The second worker comes while the first one works, and leaves the task to it. -/
theorem revocations_fenced_twoWorkers :
    ∃ c c' : Config (Fin 2) Store Lock Exn Obs (Option WithdrawalResult),
      Reached oneTask 1000 (fun i => (twoWorkers i).run plainPlatform) c ∧
        Reaches (postgres fun _ _ => False) c c' ∧
        (c.db.revocationTasks.map (·.status), c'.db.revocationTasks.map (·.status)) =
          ([.processing], [.completed]) ∧
        TaskInv c.db ∧ TasksOnward c.db c'.db ∧
        ∀ i, Step (postgres fun _ _ => False) (some i) c c' →
          ∀ t ∈ c.db.revocationTasks, ∃ t' ∈ c'.db.revocationTasks,
            FencedChange (commitsOf (c.sess i).hist) t t' := by
  have hplay : ((play validateBalancedJournal [.run 0 8 (fun k => 1000 + k),
      .run 1 200 (fun k => 2000 + k)] twoWorkersStart).bind fun d =>
        (play validateBalancedJournal [.run 0 200 (fun k => 3000 + k)] d).map fun d' =>
          (d.db.revocationTasks.map (·.status), (d'.db.revocationTasks.map (·.status),
            decide (∀ i, ∀ x ∈ marksOf (d'.sess i).hist, EndsOwn x.2.2 x.1 x.2.1)))) =
      some ([.processing], ([.completed], true)) := by decide +kernel
  obtain ⟨c, c', hr, hr', hb, hw⟩ :=
    reaches_of_plays (D := postgres fun _ _ => False) (f := fun d => _) (g := fun d => _) hplay
  obtain ⟨hw, hown⟩ := Prod.ext_iff.mp hw
  refine ⟨c, c', hr, hr', Prod.ext hb hw, ?_⟩
  exact revocations_fenced plainPlatform twoWorkers (by decide) hr hr'
    (allSee_iff.mpr (of_decide_eq_true hown))

end Market
