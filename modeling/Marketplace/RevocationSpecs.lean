import Marketplace.Revocation
import Marketplace.TxnInvariants
import Marketplace.WithdrawalSpecs

/-! # What a worker of the outbox commits

    A worker runs up to five transactions: its claim, the deletion of the sessions, two
    entries of the log of effects, and the end of its attempt.  Each one is specified
    for any context that follows the locking rules; `wp_processRevocationTask` puts them
    together, for a property of histories that these commits keep. -/

namespace Market

open TxnProgram TxnInterleaving TxnLogic TxnProtection TxnBody TxnFrames TxnInvariants

variable {p : Platform} {Γ : Ctx Store Lock Exn Obs} {w w' : World Store Lock Obs}
  {held : List Lock} {s : Store}

/-! ## The writes -/

/-- A task keeps its user, epoch and key. -/
theorem updateTask_identity {n : Nat} {f : RevocationTask → RevocationTask}
    (hf : ∀ t, (f t).identity = t.identity) (t : RevocationTask) :
    (if t.pk = n then f t else t).identity = t.identity := by
  split
  · exact hf t
  · rfl

/-- A change of a locked task row that keeps its identity. -/
theorem respects_updateTask {n : Nat} {f : RevocationTask → RevocationTask}
    (hf : ∀ t, (f t).identity = t.identity) (hrow : .row .revocationTask n ∈ held) :
    Respects p held s (updateTask n f s) := by
  have hid := updateTask_identity (n := n) hf
  refine Respects.of_table .revocationTask ?_ ?_ ?_ ?_ ?_
  · intro t ht
    cases t <;> first | rfl | exact absurd rfl ht
  · refine { Keeps.refl s with tasks := ?_ }
    show _ <+: (s.revocationTasks.map fun t => if t.pk = n then f t else t).map _
    rw [map_identity hid]
  · intro t m ht ho
    cases t with
    | user =>
        -- whose task it is belongs to its identity
        refine ⟨RowStays.refl _ _ _, rfl, { OwnedSame.refl m s with tasks := ?_ }⟩
        have huser : ∀ t : RevocationTask, (if t.pk = n then f t else t).user = t.user :=
          fun t => congrArg (fun i => i.2.1) (hid t)
        show ((s.revocationTasks.map fun t => if t.pk = n then f t else t).filter _).map _ = _
        rw [List.filter_map, List.map_map]
        have hsame : ((fun t : RevocationTask => t.user == m) ∘ fun t =>
            if t.pk = n then f t else t) = fun t => t.user == m :=
          funext fun t => congrArg (· == m) (huser t)
        rw [hsame]
        exact List.map_congr_left fun t _ => hid t
    | revocationTask =>
        refine rowStays_map fun t ht => if_neg ?_
        rintro rfl
        rw [← ht] at ho
        exact not_open_row hrow ho
    | _ => exact absurd ht (by decide)
  · exact fun _ _ ht => absurd ht (by decide)
  · intro i hi _ h
    cases i with
    | pk t m =>
        cases hi
        refine Eq.trans (any_map_congr fun t => ?_) h
        exact congrArg (· == m) (congrArg Prod.fst (hid t))
    | revocationUserEpoch u e =>
        refine Eq.trans (any_map_congr fun t => ?_) h
        exact congrArg (fun i => i.2.1 == u && i.2.2.2 == e) (hid t)
    | revocationEventKey k =>
        refine Eq.trans (any_map_congr fun t => ?_) h
        exact congrArg (fun i => i.2.2.1 == k) (hid t)
    | _ => exact nomatch hi

/-- Sessions are removed without a lock. -/
theorem respects_removeSessions {keys : List String} :
    Respects p held s (removeSessions keys s) := by
  refine Respects.of_unguarded .session (fun t' => by cases t' <;> decide) (by decide)
    ?_ { Keeps.refl s with } ?_
  · intro t ht
    cases t <;> first | rfl | exact absurd rfl ht
  · intro i hi _ h
    cases i with
    | pk t n =>
        cases hi
        exact h
    | djangoSession k => exact any_filter_false h
    | _ => exact nomatch hi

/-- An effect is logged without a lock. -/
theorem respects_addEffect (e : EffectLog) : Respects p held s (addEffect e s) := by
  refine Respects.of_free (fun t => ?_)
    { Keeps.refl s with effects := List.prefix_append _ _ }
  cases t <;> rfl

/-! ## The transactions -/

/-- What the first transaction is about to commit. -/
inductive ClaimEnd (task : Nat) (now : Time) (w : World Store Lock Obs) : Claim → Prop where
  | answered (done : Bool) : w.sess.pend = id → ClaimEnd task now w (.answered done)
  | claimed (t : RevocationTask) : t ∈ w.db.revocationTasks → t.pk = task →
      .row .revocationTask t.pk ∈ w.sess.held → t.status ≠ .completed →
      t.leased now = false → w.sess.pend = updateTask t.pk (t.claimed now) →
      ClaimEnd task now w (.claimed t.user (t.attemptCount + 1))

/-- A claim that was made stays so. -/
theorem ClaimEnd.env {task : Nat} {now : Time} {r : Claim} (hA : Abides p Γ)
    (h : ClaimEnd task now w r) (he : Env Γ w w') : ClaimEnd task now w' r := by
  have hn : Near Γ w w' := he.still.toNear
  have hpend : w'.sess.pend = w.sess.pend := by rw [he.sess]
  cases h with
  | answered done hp => exact .answered done (hpend.trans hp)
  | claimed t ht hpk hl hstatus hleased hp =>
      exact .claimed t (hA.same hn hl t ht rfl) hpk (hn.held hl) hstatus hleased (hpend.trans hp)

/-- The task is found and locked. -/
theorem look_lockTask (hA : Abides p Γ) (task : Nat) (hpend : w.sess.pend = id) :
    Look Γ (lockTask task) w (fun t w' => t ∈ w'.db.revocationTasks ∧ t.pk = task ∧
      .row .revocationTask t.pk ∈ w'.sess.held) anyError := by
  have hΓ := hA.lawful
  refine (look_getForUpdate hΓ anyError_faults _ _ _ _ trivial).mono
    fun t w1 h1 ⟨hrow, hpk, hl⟩ => ⟨?_, beq_iff_eq.mp hpk, hl⟩
  rw [view_of_id (h1.pend.trans hpend)] at hrow
  exact hrow

/-- **SPECIFICATION** of a claim. -/
theorem body_claimTask (hA : Abides p Γ) (task : Nat) (now : Time)
    (hpend : w.sess.pend = id) :
    Body Γ (claimTask task now) w (fun r w' => ClaimEnd task now w' r) anyError := by
  have hΓ := hA.lawful
  refine Body.look hΓ (look_lockTask hA task hpend) fun t w1 h1 ⟨ht, hpk, hl⟩ => ?_
  have hpend1 : w1.sess.pend = id := h1.pend.trans hpend
  by_cases hdone : t.status = .completed
  · rw [if_pos (beq_iff_eq.mpr hdone)]
    exact Body.ret hΓ (.answered true hpend1)
  · rw [if_neg fun h => hdone (beq_iff_eq.mp h)]
    cases hleased : t.leased now with
    | true =>
        rw [if_pos rfl]
        exact Body.ret hΓ (.answered false hpend1)
    | false =>
        rw [if_neg Bool.false_ne_true]
        refine Body.bind hΓ (body_updateRows hΓ anyError_faults fun held _ hlocks s =>
          hA.leave _ _ _ (respects_updateTask (fun _ => rfl) (hlocks _ List.mem_cons_self)))
          fun _ w2 h2 ⟨hp2, hlocks⟩ => Body.ret hΓ ?_
        rw [hpend1] at hp2
        exact .claimed t (hA.same h2.toNear hl t ht rfl) hpk (hlocks _ List.mem_cons_self)
          hdone hleased hp2

/-- What a transaction that ends an attempt is about to commit, and the observation it
    made of the row. -/
structure AttemptEnd (Γ : Ctx Store Lock Exn Obs) (task attempt : Nat)
    (f : RevocationTask → RevocationTask) (t : RevocationTask) (w : World Store Lock Obs) :
    Prop where
  row : t ∈ w.db.revocationTasks
  pk : t.pk = task
  lock : .row .revocationTask t.pk ∈ w.sess.held
  pend : w.sess.pend = updateTask t.pk f
  seen : ∃ now db, Γ.given (.ending task attempt) now db ∧ t ∈ db.revocationTasks ∧
    Event.marked now db (.ending task attempt) ∈ w.sess.hist

/-- The end of an attempt stays one. -/
theorem AttemptEnd.env {task attempt : Nat} {f : RevocationTask → RevocationTask}
    {t : RevocationTask} (hA : Abides p Γ) (h : AttemptEnd Γ task attempt f t w)
    (he : Env Γ w w') : AttemptEnd Γ task attempt f t w' where
  row := hA.same he.still.toNear h.lock t h.row rfl
  pk := h.pk
  lock := he.still.toNear.held h.lock
  pend := by
    rw [he.sess]
    exact h.pend
  seen := by
    rw [he.sess]
    exact h.seen

/-- **SPECIFICATION** of the end of an attempt. -/
theorem body_endTask (hA : Abides p Γ) (task attempt : Nat)
    (hshown : ∀ now s, Γ.given (.ending task attempt) now s →
      Γ.shown (.ending task attempt) now s)
    {saved : Time → RevocationTask → RevocationTask}
    (hsaved : ∀ now t, (saved now t).identity = t.identity) (hpend : w.sess.pend = id) :
    Body Γ (endTask task attempt saved) w
      (fun _ w' => ∃ now t, AttemptEnd Γ task attempt (saved now) t w') anyError := by
  have hΓ := hA.lawful
  refine Body.look hΓ (look_lockTask hA task hpend) fun t w1 h1 ⟨ht, hpk, hl⟩ => ?_
  refine Body.look hΓ (Look.observe fun _ _ hg => hshown _ _ hg) fun _ w2 h2 hobs => ?_
  obtain ⟨w0, h0, hgiven, hw2⟩ := hobs
  -- the rest of the transaction keeps the observation in the history
  refine (Body.hist (P := fun _ w' => ∃ now, w'.sess.pend = updateTask t.pk (saved now))
    (Body.look hΓ Look.fresh fun now w3 h3 _ => ?_)).mono
    fun _ w4 h4 ⟨⟨now, hp4⟩, hhist⟩ => ⟨now, t, ?_⟩
  · refine (body_updateRows hΓ anyError_faults fun held _ hlocks s => hA.leave _ _ _
      (respects_updateTask (hsaved now) (hlocks _ List.mem_cons_self))).mono
      fun _ w4 _ hp => ⟨now, ?_⟩
    rw [hp.1, h3.pend, h2.pend, h1.pend, hpend]
    rfl
  · refine ⟨hA.same (h2.toNear.trans hΓ h4.toNear) hl t ht rfl, hpk,
      h4.held (h2.held hl), hp4, w0.now, w0.db, hgiven, hA.same h0.toNear hl t ht rfl, ?_⟩
    refine hhist.subset ?_
    rw [hw2]
    exact List.mem_cons_self

/-- A transaction that leaves the users and the tasks alone, and logs an effect. -/
structure Effected (task attempt : Nat) (effect : RevocationEffect)
    (w : World Store Lock Obs) : Prop where
  users : ∀ s, (w.sess.pend s).users = s.users
  tasks : ∀ s, (w.sess.pend s).revocationTasks = s.revocationTasks
  effects : ∀ s, (w.sess.pend s).effects = s.effects ++ [⟨task, attempt, effect⟩]

/-- An effect that was had stays so. -/
theorem Effected.env {task attempt : Nat} {effect : RevocationEffect}
    (h : Effected task attempt effect w) (he : Env Γ w w') :
    Effected task attempt effect w' := by
  refine ⟨?_, ?_, ?_⟩
  · rw [he.sess]
    exact h.users
  · rw [he.sess]
    exact h.tasks
  · rw [he.sess]
    exact h.effects

/-- Users, tasks and the log of effects stay as they are. -/
structure OutboxSame (s s' : Store) : Prop where
  users : s'.users = s.users
  tasks : s'.revocationTasks = s.revocationTasks
  effects : s'.effects = s.effects

/-- An effect is logged. -/
theorem body_addEffect (hA : Abides p Γ) (task attempt : Nat) (effect : RevocationEffect)
    (hsame : ∀ s, OutboxSame s (w.sess.pend s)) :
    Body Γ (Prog.write (addEffect ⟨task, attempt, effect⟩)) w
      (fun _ w' => Effected task attempt effect w') anyError := by
  refine (Body.write hA.lawful anyError_faults fun s => hA.leave _ _ _
    (respects_addEffect _)).mono fun _ w1 _ hp => ⟨fun s => ?_, fun s => ?_, fun s => ?_⟩
  · rw [hp]
    exact (hsame s).users
  · rw [hp]
    exact (hsame s).tasks
  · rw [hp]
    show (w.sess.pend s).effects ++ _ = _
    rw [(hsame s).effects]

/-- The sessions of the index are deleted one by one. -/
theorem body_dropSessions (hA : Abides p Γ) (indexes : List UserSessionIndex)
    (hpend : w.sess.pend = id) :
    Body Γ (dropSessions indexes) w
      (fun _ w' => ∀ s, OutboxSame s (w'.sess.pend s)) anyError := by
  have hΓ := hA.lawful
  rw [dropSessions]
  split
  · refine Body.ret hΓ fun s => ?_
    rw [hpend]
    exact ⟨rfl, rfl, rfl⟩
  · refine Body.bind hΓ (Body.write hΓ anyError_faults fun s => hA.leave _ _ _
      respects_removeSessions) fun _ w1 h1 hp1 => ?_
    refine Body.look hΓ Look.fresh fun now w2 h2 _ => ?_
    refine (body_updateRows hΓ anyError_faults fun held _ _ s => hA.leave _ _ _
      (respects_updateSessions (f := fun r => { r with revokedAt := some now })
        fun _ => ⟨rfl, rfl⟩)).mono fun _ w3 _ hp3 => ?_
    rw [hp3.1, h2.pend, hp1, hpend]
    exact fun _ => ⟨rfl, rfl, rfl⟩

/-- **SPECIFICATION** of the effect on the sessions. -/
theorem body_deleteSessions (hA : Abides p Γ) (task attempt user : Nat)
    (hpend : w.sess.pend = id) :
    Body Γ (deleteSessions task attempt user) w
      (fun _ w' => Effected task attempt .sessionsDeleted w') anyError := by
  have hΓ := hA.lawful
  refine Body.look hΓ (look_selectForUpdate hΓ anyError_faults _ _ _ _)
    fun indexes w1 h1 _ => ?_
  exact Body.bind hΓ (body_dropSessions hA indexes (h1.pend.trans hpend))
    fun _ w2 _ hsame => body_addEffect hA _ _ _ hsame

/-- What `prepare_withdrawal_revocation` is about to commit. -/
structure Prepared (user authEpoch : Nat) (r : RevocationPreparation)
    (w : World Store Lock Obs) : Prop where
  row : ∃ u ∈ w.db.users, u.pk = user ∧ u.withdrawnAt.isSome ∧ u.isActive = false ∧
    u.authEpoch = authEpoch
  lock : .row .user user ∈ w.sess.held
  task : TaskEnd user authEpoch r.task r.created w.sess.held w.db w.sess.pend
  rest : ∀ s, w.sess.pend s = { s with revocationTasks := (w.sess.pend s).revocationTasks }

/-- What was prepared stays so. -/
theorem Prepared.env {user authEpoch : Nat} {r : RevocationPreparation} (hA : Abides p Γ)
    (h : Prepared user authEpoch r w) (he : Env Γ w w') : Prepared user authEpoch r w' := by
  obtain ⟨u, hu, hpk, hrest⟩ := h.row
  refine ⟨⟨u, (hA.same he.still.toNear h.lock).1 u hu hpk, hpk, hrest⟩,
    he.still.toNear.held h.lock, h.task.env hA h.lock he, ?_⟩
  rw [he.sess]
  exact h.rest

/-- **SPECIFICATION** of the preparation. -/
theorem body_prepareWithdrawalRevocation (hA : Abides p Γ) (user authEpoch : Nat)
    (hpend : w.sess.pend = id) (hopen : w.sess.frames ≠ []) :
    Body Γ (prepareWithdrawalRevocationBody user authEpoch) w
      (fun r w' => Prepared user authEpoch r w') anyError := by
  have hΓ := hA.lawful
  refine Body.look hΓ (Look.tryCatch (G := anyError) hΓ (look_getForUpdate hΓ anyError_faults
    _ _ _ _ trivial) fun e _ _ _ => ?_) fun u w1 h1 ⟨hrow, huser, hl⟩ => ?_
  · split <;> exact Look.raise hΓ trivial
  rw [beq_iff_eq] at huser
  have hpend1 : w1.sess.pend = id := h1.pend.trans hpend
  rw [view_of_id hpend1] at hrow
  refine Body.look hΓ (look_raiseIf hΓ fun _ => trivial) fun _ w2 h2 hok => ?_
  have hpend2 : w2.sess.pend = id := h2.pend.trans hpend1
  -- the five checks, all passed
  simp only [Bool.or_eq_false_iff, bne_eq_false_iff_eq, Option.isNone_eq_false_iff] at hok
  obtain ⟨⟨⟨⟨-, hwithdrawn⟩, hactive⟩, -⟩, hepoch⟩ := hok
  refine Body.bind hΓ (body_revocationTask hA authEpoch (h2.held hl) (fun s => ?_) ?_)
    fun ⟨task, created⟩ w3 h3 ⟨htask, tasks, hp3⟩ => ?_
  · rw [hpend2]
    rfl
  · rw [h2.frames, h1.frames]
    exact hopen
  refine Body.look hΓ (look_raiseIf hΓ fun _ => trivial) fun _ w4 h4 _ => Body.ret hΓ ?_
  have hl3 : .row .user u.pk ∈ w3.sess.held := h3.held (h2.held hl)
  have h14 : Near Γ w1 w4 := h2.toNear.trans hΓ (h3.toNear.trans hΓ h4.toNear)
  rw [← huser]
  refine ⟨⟨u, (hA.same h14 hl).1 u hrow rfl, rfl, hwithdrawn, hactive, hepoch⟩, h4.held hl3,
    ?_, fun s => ?_⟩
  · exact htask.near hA hl3 h4
  · rw [h4.pend, hp3 s, hpend2]
    rfl

/-! ## A worker -/

/-- One of the commits is a claim of the task, and began the attempt. -/
def Claimed (task attempt : Nat) (commits : List (Store × Store)) : Prop :=
  ∃ e ∈ commits, ∃ t ∈ e.1.revocationTasks, ∃ now, t.pk = task ∧
    t.attemptCount + 1 = attempt ∧ t.status ≠ .completed ∧ t.leased now = false ∧
    t.claimed now t ∈ e.2.revocationTasks

/-- What the commits of a worker have to be in its context, and what they do to a
    property of histories. -/
structure WorkerRules (Γ : Ctx Store Lock Exn Obs) (H : List (Event Store Obs) → Prop) :
    Prop where
  mark : ∀ now db v h, H h → H (.marked now db v :: h)
  shown : ∀ task attempt now s, Γ.given (.ending task attempt) now s →
    Γ.shown (.ending task attempt) now s
  /-- A commit that leaves the users and the tasks alone. -/
  quiet : ∀ w : World Store Lock Obs, Γ.leave w.sess.held w.db w.view →
    w.view.users = w.db.users → w.view.revocationTasks = w.db.revocationTasks →
    w.db.effects <+: w.view.effects → H w.sess.hist → Γ.guar w.sess.held w.db w.view ∧
      H (.committed w.db w.view :: w.sess.hist)
  claim : ∀ task now r (w : World Store Lock Obs), Γ.leave w.sess.held w.db w.view →
    ClaimEnd task now w r → H w.sess.hist → Γ.guar w.sess.held w.db w.view ∧
      H (.committed w.db w.view :: w.sess.hist)
  /-- The end of an attempt that this session claimed. -/
  retry : ∀ task attempt now error t (w : World Store Lock Obs),
    Γ.leave w.sess.held w.db w.view →
    AttemptEnd Γ task attempt (RevocationTask.retried now error) t w →
    Claimed task attempt (commitsOf w.sess.hist) → H w.sess.hist →
    Γ.guar w.sess.held w.db w.view ∧ H (.committed w.db w.view :: w.sess.hist)
  finish : ∀ task attempt now t (w : World Store Lock Obs),
    Γ.leave w.sess.held w.db w.view →
    AttemptEnd Γ task attempt (RevocationTask.finished now) t w →
    (∀ effect, ⟨task, attempt, effect⟩ ∈ w.db.effects) →
    Claimed task attempt (commitsOf w.sess.hist) → H w.sess.hist →
    Γ.guar w.sess.held w.db w.view ∧ H (.committed w.db w.view :: w.sess.hist)

/-- A worker between two transactions of its attempt, with the effects it has logged. -/
structure Working (H : List (Event Store Obs) → Prop) (task attempt : Nat)
    (logged : List RevocationEffect) (w : World Store Lock Obs) : Prop where
  idle : Idle w
  hist : H w.sess.hist
  claimed : Claimed task attempt (commitsOf w.sess.hist)
  effects : ∀ effect ∈ logged, ⟨task, attempt, effect⟩ ∈ w.db.effects

/-- A commit is added to a history. -/
theorem Claimed.cons {task attempt : Nat} {commits : List (Store × Store)}
    (h : Claimed task attempt commits) (e : Store × Store) :
    Claimed task attempt (e :: commits) := by
  obtain ⟨e', he', hrest⟩ := h
  exact ⟨e', List.mem_cons_of_mem _ he', hrest⟩

section Worker

variable {H : List (Event Store Obs) → Prop} {task attempt : Nat}
  {logged : List RevocationEffect}

/-- One effect. -/
theorem wp_effected (hA : Abides p Γ) (hrules : WorkerRules Γ H) (effect : RevocationEffect)
    (h : Working H task attempt logged w) {m : M Unit}
    (hbody : ∀ w', w'.sess.pend = id → Body Γ m w'
      (fun _ w'' => Effected task attempt effect w'') anyError) :
    wp Γ (atomic m) (fun r w' => match r with
      | .ok _ => Working H task attempt (effect :: logged) w'
      | .error _ => Working H task attempt logged w') w := by
  have hkeep : ∀ s', Γ.rely [] w.db s' → w.db.effects <+: s'.effects := fun s' h =>
    (hA.rely _ _ _ h).1.effects
  refine wp_recorded hA.lawful hrules.mark h.idle h.hist (fun w' hpend _ => hbody w' hpend)
    (fun _ _ _ hp he => hp.env he) ?_ ?_
  · intro e w3 hidle hhist hc hdb
    refine ⟨hidle, hhist, ?_, fun effect he => (hkeep _ hdb).subset (h.effects effect he)⟩
    rw [hc]
    exact h.claimed
  · intro _ w2 hdb hc hleave hp hhist
    have hlog := hp.effects w2.db
    obtain ⟨hguar, hhist'⟩ := hrules.quiet w2 hleave (hp.users w2.db) (hp.tasks w2.db)
      (by rw [World.view, hlog]; exact List.prefix_append _ _) hhist
    refine ⟨hguar, publish_idle w2, hhist', ?_, fun x hx => ?_⟩
    · show Claimed task attempt ((w2.db, w2.view) :: commitsOf w2.sess.hist)
      rw [hc]
      exact h.claimed.cons _
    · show _ ∈ w2.view.effects
      rw [World.view, hlog]
      rcases List.mem_cons.mp hx with rfl | hx
      · exact List.mem_append_right _ (List.mem_singleton.mpr rfl)
      · exact List.mem_append_left _ ((hkeep _ hdb).subset (h.effects x hx))

/-- A worker goes on with its attempt. -/
theorem Working.env (hA : Abides p Γ) (h : Working H task attempt logged w)
    (he : Env Γ w w') : Working H task attempt logged w' where
  idle := h.idle.env he
  hist := by
    rw [he.sess]
    exact h.hist
  claimed := by
    rw [he.sess]
    exact h.claimed
  effects effect hx := (hA.keeps he.still.toNear).effects.subset (h.effects effect hx)

/-- An effect on the outside world, or its failure. -/
theorem wp_outside (hA : Abides p Γ) (hrules : WorkerRules Γ H) (effect : RevocationEffect)
    (failure : Nat → Option String) (h : Working H task attempt logged w) :
    wp Γ (outside failure ⟨task, attempt, effect⟩) (fun r w' => match r with
      | .ok _ => Working H task attempt (effect :: logged) w'
      | .error _ => Working H task attempt logged w') w := by
  refine wp_bind fun w1 he n => ?_
  have h1 := h.env hA he
  show onOk _ _ (Except.ok n) w1
  rw [onOk_ok]
  cases failure n with
  | none =>
      refine wp_effected hA hrules _ h1 fun w' hpend => body_addEffect hA _ _ _ fun s => ?_
      rw [hpend]
      exact ⟨rfl, rfl, rfl⟩
  | some typeName => exact h1

/-- The effects, in their order: an error leaves some of them undone. -/
theorem wp_revokeEverything (hA : Abides p Γ) (hrules : WorkerRules Γ H) (user : Nat)
    (failure : Nat → Option String) (h : Working H task attempt [] w) :
    wp Γ (revokeEverything failure task attempt user) (fun r w' => match r with
      | .ok _ => Working H task attempt [.presenceCleared, .socketsClosed, .sessionsDeleted] w'
      | .error _ => Working H task attempt [] w') w := by
  have hnone : ∀ {logged : List RevocationEffect} {w : World Store Lock Obs},
      Working H task attempt logged w → Working H task attempt [] w :=
    fun h => ⟨h.idle, h.hist, h.claimed, fun _ hx => nomatch hx⟩
  refine wp_bind (wp_mono ?_ (wp_effected hA hrules .sessionsDeleted h
    fun w' hpend => body_deleteSessions hA task attempt user hpend))
  rintro (e | _) w1 h1
  · exact h1
  · refine wp_bind (wp_mono ?_ (wp_outside hA hrules .socketsClosed failure h1))
    rintro (e | _) w2 h2
    · exact hnone h2
    · refine wp_mono ?_ (wp_outside hA hrules .presenceCleared failure h2)
      rintro (e | _) w3 h3
      · exact hnone h3
      · exact h3

/-- What a worker leaves behind, whatever it answers. -/
def Rested (H : List (Event Store Obs) → Prop) (w : World Store Lock Obs) : Prop :=
  Idle w ∧ H w.sess.hist

/-- The end of an attempt, once its commit is known to be right. -/
theorem wp_endTask (hA : Abides p Γ) (hrules : WorkerRules Γ H)
    (saved : Time → RevocationTask → RevocationTask)
    (hsaved : ∀ now t, (saved now t).identity = t.identity)
    (h : Working H task attempt logged w)
    (hend : ∀ now t (w2 : World Store Lock Obs), Γ.leave w2.sess.held w2.db w2.view →
      AttemptEnd Γ task attempt (saved now) t w2 →
      (∀ effect ∈ logged, ⟨task, attempt, effect⟩ ∈ w2.db.effects) →
      Claimed task attempt (commitsOf w2.sess.hist) → H w2.sess.hist →
      Γ.guar w2.sess.held w2.db w2.view ∧ H (.committed w2.db w2.view :: w2.sess.hist)) :
    wp Γ (atomic (endTask task attempt saved)) (fun _ w' => Rested H w') w := by
  refine wp_recorded hA.lawful hrules.mark h.idle h.hist
    (fun w' hpend _ => body_endTask hA task attempt (hrules.shown task attempt) hsaved hpend)
    (fun _ _ _ hp he => ?_) (fun e w3 hidle hhist _ _ => ⟨hidle, hhist⟩) ?_
  · obtain ⟨now, t, hp⟩ := hp
    exact ⟨now, t, hp.env hA he⟩
  · intro _ w2 hdb hc hleave ⟨now, t, hp⟩ hhist
    obtain ⟨hguar, hhist'⟩ := hend now t w2 hleave hp
      (fun effect hx => (hA.rely _ _ _ hdb).1.effects.subset (h.effects effect hx))
      (by rw [hc]; exact h.claimed) hhist
    exact ⟨hguar, publish_idle w2, hhist'⟩

/-- **ATTEMPT**: the effects in their order, and its end. -/
theorem wp_endClaim (hA : Abides p Γ) (hrules : WorkerRules Γ H) (user : Nat)
    (failure : Nat → Option String) (h : Working H task attempt [] w) :
    wp Γ (endClaim failure task user attempt) (fun _ w' => Rested H w') w := by
  have hretry : ∀ (e : Exn) (w1 : World Store Lock Obs), Working H task attempt [] w1 →
      wp Γ (atomic (retryTask task attempt e)) (fun _ w' => Rested H w') w1 :=
    fun e w1 h1 => wp_endTask hA hrules _ (fun _ _ => rfl) h1
      fun now t w2 hleave hp _ hclaimed hhist =>
        hrules.retry task attempt now _ t w2 hleave hp hclaimed hhist
  -- the effects go on to the end, and an error to the retry
  refine wp_bind (wp_tryCatch (wp_bind (wp_mono ?_ (wp_revokeEverything hA hrules user
    failure h))))
  rintro (e | _) w1 h1
  · refine wp_bind (wp_mono ?_ (hretry e w1 h1))
    rintro (e' | _) w2 h2
    · exact h2
    · exact h2
  · refine wp_bind (wp_mono ?_ (wp_endTask hA hrules RevocationTask.finished
      (fun _ _ => rfl) h1 ?_))
    · rintro (e | _) w2 h2
      · exact h2
      · exact h2
    · intro now t w2 hleave hp heffects hclaimed hhist
      refine hrules.finish task attempt now t w2 hleave hp (fun effect => heffects effect ?_)
        hclaimed hhist
      cases effect <;> decide

/-- **SPECIFICATION** of `process_revocation_task`. -/
theorem wp_processRevocationTask (hA : Abides p Γ) (hrules : WorkerRules Γ H)
    (failure : Nat → Option String) (task : Nat) (h : Rested H w) :
    wp Γ (processRevocationTask failure task) (fun _ w' => Rested H w') w := by
  refine wp_bind fun w1 he now => ?_
  have hH : H w1.sess.hist := by
    rw [he.sess]
    exact h.2
  refine wp_bind (wp_recorded (P := fun r w' => ClaimEnd task now w' r) hA.lawful hrules.mark
    (h.1.env he) hH (fun w' hpend _ => body_claimTask hA task now hpend)
    (fun _ _ _ hp he => hp.env hA he) (fun e w3 hidle hhist _ _ => ⟨hidle, hhist⟩) ?_)
  intro r w2 _ hc hleave hp hhist
  obtain ⟨hguar, hhist'⟩ := hrules.claim task now r w2 hleave hp hhist
  refine ⟨hguar, ?_⟩
  cases hp with
  | answered done _ => exact ⟨publish_idle w2, hhist'⟩
  | claimed t ht hpk hl hstatus hleased hp =>
      refine wp_endClaim hA hrules t.user failure ⟨publish_idle w2, hhist', ?_,
        fun _ hx => nomatch hx⟩
      refine ⟨(w2.db, w2.view), List.mem_cons_self, t, ht, now, hpk, rfl, hstatus, hleased, ?_⟩
      show t.claimed now t ∈ (w2.sess.pend w2.db).revocationTasks
      rw [hp]
      exact List.mem_map.mpr ⟨t, ht, if_pos rfl⟩

/-- **WORKER**: one task after the other. -/
theorem wp_processAll (hA : Abides p Γ) (hrules : WorkerRules Γ H)
    (failure : Nat → Option String) (tasks : List Nat) :
    ∀ {w : World Store Lock Obs}, Rested H w →
      wp Γ (processAll failure tasks) (fun _ w' => Rested H w') w := by
  induction tasks with
  | nil => exact fun h => h
  | cons task rest ih =>
      intro w h
      refine wp_bind (wp_mono ?_ (wp_processRevocationTask hA hrules failure task h))
      rintro (e | done) w1 h1
      · exact h1
      · refine wp_bind (wp_mono ?_ (ih h1))
        rintro (e | completed) w2 h2
        · exact h2
        · exact h2

/-- **SPECIFICATION** of the command. -/
theorem wp_processWithdrawalRevocations (hA : Abides p Γ) (hrules : WorkerRules Γ H)
    (failure : Nat → Option String) (limit : Int) (h : Rested H w) :
    wp Γ (processWithdrawalRevocations failure limit) (fun _ w' => Rested H w') w := by
  have henv : ∀ {w w' : World Store Lock Obs}, Rested H w → Env Γ w w' → Rested H w' := by
    intro w w' h he
    refine ⟨h.1.env he, ?_⟩
    rw [he.sess]
    exact h.2
  refine wp_bind (wp_raiseIf (fun _ => h) fun _ => ?_)
  refine wp_bind fun w1 he1 now => ?_
  refine wp_bind fun w2 he2 now' => ?_
  refine wp_bind fun w3 he3 => ⟨?_, fun _ _ => henv (henv (henv h he1) he2) he3⟩
  refine wp_bind (wp_mono ?_ (wp_processAll hA hrules failure _
    (henv (henv (henv h he1) he2) he3)))
  rintro (e | completed) w4 h4
  · exact h4
  · exact h4

end Worker

end Market
