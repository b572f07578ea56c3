import DostReview.Review.Starting

/-!
# Undisturbed batches

When the UPDATEs by id of the batch runner spare the terminal rows, told by what happens in a run:
a batch is run by one call, which finds it `RUNNING`, no sweep takes the batch of a live runner, and
no lost answer sends a runner back to rows that it has settled.
-/
namespace DostReview.Review

variable {σ : Type} {cfg : Config σ} {db : Db σ} {v : View σ} {m : Move σ} {st : Option (Stmt σ)}

/-! ### What happens -/

/-- The answer sends the runner back to reviews that it has settled, or to a batch that it has
finished. -/
def WorkerPhase.Misled : WorkerPhase σ → Reply → Prop
  | .committing _ _ _, .lost _ => True
  -- outside the handler an exception has it settle the whole profile again
  | .settling work todo _ false, .failed _ => todo.map (·.id) ≠ work.rows.map (·.id)
  | .settling _ _ _ false, .lost _ => True
  | .completing _, .lost _ => True
  | _, _ => False

/-- A live call whose batch is none of these. -/
def Call.OutOf (ids : List Uuid) : Call σ → Prop
  | .worker w => w.ended = false → w.batchId ∉ ids
  | _ => True

def Move.answer : Move σ → Option Reply
  | .reply r => some r
  | _ => none

def StarterPhase.sweeps : StarterPhase → Bool
  | .sweeping => true
  | _ => false

/-- The step of a call misleads no runner, and takes no batch of a live one for a dead one's. -/
def Call.Undisturbed (cfg : Config σ) (s : State σ) (i : ℕ) (m : Move σ) : Call σ → Prop
  | .gate _ => True
  | .worker w => ∀ r ∈ m.answer, ¬ w.phase.Misled r
  | .starter b => b.phase.sweeps → m.Lands →
    ∀ c ∈ s.calls, c.OutOf (Starter.sweptIds cfg (s.view cfg i))

/-- A batch is run by one call, which finds it `RUNNING`, and the steps of calls disturb none. -/
def Undisturbed (cfg : Config σ) (s : State σ) : Action σ → Prop
  | .request (.runBatchToCompletion batchId) =>
    (∀ c ∈ s.calls, c.batchId ≠ some batchId) ∧ Running s.db batchId
  | .act i m => ∀ c ∈ s.calls[i]?, c.Undisturbed cfg s i m
  | _ => True

instance (phase : WorkerPhase σ) (r : Reply) : Decidable (phase.Misled r) := by
  unfold WorkerPhase.Misled
  split <;> infer_instance

instance (ids : List Uuid) : ∀ c : Call σ, Decidable (c.OutOf ids)
  | .gate _ => isTrue trivial
  | .worker w => inferInstanceAs (Decidable (w.ended = false → w.batchId ∉ ids))
  | .starter _ => isTrue trivial

instance (s : State σ) (i : ℕ) (m : Move σ) : DecidablePred (Call.Undisturbed cfg s i m)
  | .gate _ => isTrue trivial
  | .worker w => inferInstanceAs (Decidable (∀ r ∈ m.answer, ¬ w.phase.Misled r))
  | .starter b => inferInstanceAs (Decidable (b.phase.sweeps → m.Lands →
    ∀ c ∈ s.calls, c.OutOf (Starter.sweptIds cfg (s.view cfg i))))

instance (s : State σ) : DecidablePred (Undisturbed cfg s)
  | .tick _ => isTrue trivial
  | .request (.runBatchToCompletion batchId) =>
    inferInstanceAs (Decidable ((∀ c ∈ s.calls, c.batchId ≠ some batchId) ∧ Running s.db batchId))
  | .request (.gateAndStore _ _) => isTrue trivial
  | .request .startBatch => isTrue trivial
  | .request .sweepStaleBatches => isTrue trivial
  | .act i m => inferInstanceAs (Decidable (∀ c ∈ s.calls[i]?, c.Undisturbed cfg s i m))

/-! ### What a runner has in hand -/

abbrev groupIds (groups : List (Uuid × List ReviewRow)) : List Uuid :=
  groups.flatMap fun g => g.2.map (·.id)

/-- The reviews that a runner has yet to settle. -/
def WorkerPhase.left : WorkerPhase σ → List Uuid
  | .loading work => groupIds work.groups
  | .processing work _ => groupIds work.groups
  | .committing work _ _ => groupIds work.groups
  | .settling work todo _ _ => todo.map (·.id) ++ groupIds work.rest
  | _ => []

/-- The runner has yet to mark its batch. -/
def WorkerPhase.Marks : WorkerPhase σ → Prop
  | .requeueing => False
  | .returned _ => False
  | .gone => False
  | _ => True

/-- A review is in `PROCESSING` for a batch. -/
def TakenFor (db : Db σ) (batchId id : Uuid) : Prop :=
  ∃ row, db.reviews.find? id = some row ∧ row.status = .processing ∧ row.batchId = some batchId

/-- What a runner has yet to settle is in `PROCESSING` for its batch, no review twice. -/
structure Worker.Holds (db : Db σ) (w : Worker σ) : Prop where
  distinct : w.phase.left.Nodup
  taken : ∀ id ∈ w.phase.left, TakenFor db w.batchId id

theorem left_nextProfile (rest : List (Uuid × List ReviewRow)) (stats : Stats) :
    (nextProfile rest stats : WorkerPhase σ).left = groupIds rest := by
  cases rest <;> rfl

theorem left_settle (work : Work) (todo : List ReviewRow) (willRetry handler : Bool) :
    (settle work todo willRetry handler : WorkerPhase σ).left =
      todo.map (·.id) ++ groupIds work.rest := by
  cases todo with
  | nil => exact left_nextProfile _ _
  | cons => rfl

theorem left_handle (work : Work) : (work.handle : WorkerPhase σ).left = groupIds work.groups :=
  left_settle work work.rows true true

theorem TakenFor.after {batchId id : Uuid} (h : TakenFor db batchId id)
    (plain : ∀ new, st ≠ some (.putReview new))
    (unmatched : ∀ x, st = some x → ∀ row : ReviewRow, db.reviews.find? id = some row →
      row.status = .processing → row.batchId = some batchId → x.onReview row = row) :
    TakenFor (db.after st) batchId id := by
  obtain ⟨row, found, processing, batch⟩ := h
  refine ⟨row, ?_, processing, batch⟩
  cases st with
  | none => exact found
  | some x =>
    have other : ∀ new, x ≠ .putReview new := fun new same => plain new (congrArg some same)
    have kept := Stmt.find?_exec_of_found other found
    rw [unmatched x rfl row found processing batch] at kept
    exact kept

theorem Worker.Holds.nothing {w : Worker σ} (none : w.phase.left = []) : w.Holds db where
  distinct := none ▸ List.nodup_nil
  taken id member := by simp [none] at member

theorem Worker.Holds.same {w : Worker σ} {phase : WorkerPhase σ} (h : w.Holds db)
    (same : phase.left = w.phase.left) : (w.enter phase).Holds db where
  distinct := same ▸ h.distinct
  taken id member := h.taken id (same ▸ member)

/-- A runner goes on to the rest, which its UPDATE has not matched. -/
theorem Worker.Holds.rest {w : Worker σ} {phase : WorkerPhase σ} {x : Stmt σ} (h : w.Holds db)
    (done : List Uuid) (left : w.phase.left = done ++ phase.left)
    (plain : ∀ new, some x ≠ some (.putReview new))
    (unmatched : ∀ row : ReviewRow, row.id ∉ done → x.onReview row = row) :
    (w.enter phase).Holds (db.after (some x)) := by
  obtain ⟨distinct, taken⟩ := h
  rw [left] at distinct taken
  obtain ⟨-, later, apart⟩ := List.nodup_append.mp distinct
  refine ⟨later, fun id member => (taken id (List.mem_append_right _ member)).after plain ?_⟩
  rintro _ same row found - -
  cases same
  -- no review is in hand twice
  refine unmatched row fun mine => ?_
  exact apart row.id mine id member (Table.key_of_find? found)

theorem holds_claimed {w : Worker σ} {limit : ℕ} {skipped ids : List Uuid}
    (picks : Picks db limit skipped ids) :
    (w.enter (Worker.claimed (claimedRows db w.batchId ids))).Holds
      (db.after (some (.claim w.batchId ids))) := by
  have present : ∀ id ∈ ids, ∃ row, db.reviews.find? id = some row := fun id taken =>
    (picks.gated taken).imp fun _ found => found.1
  have perm : (w.enter (Worker.claimed (claimedRows db w.batchId ids))).phase.left.Perm ids := by
    have grouped := (groupByTarget_perm (claimedRows db w.batchId ids)).map (·.id)
    rw [List.map_flatMap, claimedRows_ids w.batchId present] at grouped
    exact (List.Perm.of_eq (left_nextProfile _ _)).trans grouped
  refine ⟨perm.nodup_iff.mpr picks.1, fun id member => ?_⟩
  have taken := perm.subset member
  obtain ⟨row, found⟩ := present id taken
  have key : row.id = id := Table.key_of_find? found
  refine ⟨_, Stmt.find?_exec_of_found (by simp) found, ?_, ?_⟩ <;>
    simp [Stmt.onReview, Worker.enter, key, taken]

/-- A runner that is not misled goes on holding what it has yet to settle. -/
theorem Worker.Step.holds {w : Worker σ} {phase : WorkerPhase σ} (step : w.Step cfg v m phase st)
    (calm : ∀ r, m = .reply r → ¬ w.phase.Misled r) (h : w.Holds v.db) :
    (w.enter phase).Holds (v.db.after st) := by
  have plain := fun new => step.plain new
  cases step with
  | claimed skipped ids here picks => exact holds_claimed picks
  | read work here | output work stored out here => exact h.same (by rw [here]; rfl)
  | unread work r here | raised work stored e here =>
    exact h.same (by rw [here, left_handle]; rfl)
  | engineError work stored willRetry here => exact h.same (by rw [here, left_settle]; rfl)
  | uncommitted work stored out r here bad =>
    -- the transaction was rolled back
    obtain ⟨e, rfl⟩ := Reply.eq_failed bad fun e lost => calm r rfl (by rw [here, lost]; trivial)
    exact h.same (by rw [here, left_handle]; rfl)
  | committed work stored out here =>
    refine h.rest (work.rows.map (·.id)) ?_ plain fun row other => ?_
    · rw [here, Work.committed, left_nextProfile]
      rfl
    · simp [Work.commit, Stmt.onReview, other]
  | settled work row todo willRetry handler here =>
    refine h.rest [row.id] ?_ plain fun r other => ?_
    · rw [here, left_settle]
      rfl
    · exact onReview_settle_of_ne (mt List.mem_singleton.mpr other)
  | unsettled work row todo willRetry handler r e here bad =>
    cases handler with
    | true => exact .nothing rfl
    | false =>
      have again := calm r rfl
      rw [here] at again
      cases r with
      | ok => exact absurd rfl bad
      | lost => exact absurd trivial again
      | failed =>
        -- it was the first row of the profile
        have first : (row :: todo).map (·.id) = work.rows.map (·.id) := not_ne_iff.mp again
        refine h.same ?_
        rw [here]
        exact (left_handle work).trans (congrArg (· ++ groupIds work.rest) first.symm)
  | crashed | unclaimed | unloaded | completed | uncompleted | marked | requeued =>
    exact .nothing rfl

/-! ### What the others do -/

/-- A runner touches no review that is in `PROCESSING` for another batch. -/
theorem Worker.Step.spares {w : Worker σ} {phase : WorkerPhase σ} (step : w.Step cfg v m phase st)
    (h : w.Holds v.db) {batchId id : Uuid} (other : batchId ≠ w.batchId)
    (taken : TakenFor v.db batchId id) : TakenFor (v.db.after st) batchId id := by
  refine taken.after (fun new => step.plain new) fun x effect row found processing batch => ?_
  have key : row.id = id := Table.key_of_find? found
  have foreign : row.id ∉ w.phase.left := by
    intro mine
    obtain ⟨row', found', -, batch'⟩ := h.taken row.id mine
    cases (key ▸ found).symm.trans found'
    exact other (Option.some.inj (batch.symm.trans batch'))
  -- the claim takes `GATED` rows, the UPDATE due what is held, the requeue the batch's own rows
  rcases step.stmt_cases effect with ⟨skipped, ids, -, picks, rfl⟩ | ⟨-, due⟩ | ⟨-, rfl⟩
  · have untaken : row.id ∉ ids := fun mem => by
      rw [picks.status found mem] at processing
      cases processing
    simp [Stmt.onReview, untaken]
  · rcases Worker.due_cases due with ⟨work, stored, out, here, rfl⟩ |
      ⟨work, first, todo, willRetry, handler, here, rfl⟩ | ⟨status, report, rfl⟩
    · rw [here] at foreign
      have outside : row.id ∉ work.rows.map (·.id) := fun mine =>
        foreign (List.mem_append_left _ mine)
      simp [Work.commit, Stmt.onReview, outside]
    · rw [here] at foreign
      exact onReview_settle_of_ne fun same => foreign (same ▸ List.mem_cons_self)
    · rfl
  · simp [Stmt.onReview, batch, other]

/-- A requeue of other batches leaves the review, and so does a sweep. -/
theorem Starter.Step.spares {b : Starter} {phase : StarterPhase} (step : b.Step cfg v m phase st)
    {batchId id : Uuid} (other : ∀ ids, b.phase = .requeueing ids → batchId ∉ ids)
    (taken : TakenFor v.db batchId id) : TakenFor (v.db.after st) batchId id := by
  refine taken.after (fun new => step.plain new) fun x effect row found processing batch => ?_
  rcases step.stmt_cases effect with ⟨rfl, -⟩ | ⟨ids, rfl, here⟩ | ⟨new, rfl, -⟩
  · rfl
  · simp [Stmt.onReview, batch, other ids here]
  · rfl

theorem Starter.Step.sweeping {b : Starter} {phase : StarterPhase} (step : b.Step cfg v m phase st)
    {before now : Time} (sweep : st = some (.sweep before now)) :
    b.phase = .sweeping ∧ m.Lands ∧ before = staleBefore cfg v.now := by
  cases step with
  | swept here =>
    cases sweep
    exact ⟨here, trivial, rfl⟩
  | unswept r bad here =>
    cases r with
    | ok => exact absurd rfl bad
    | failed => cases sweep
    | lost =>
      cases sweep
      exact ⟨here, trivial, rfl⟩
  | committed batchId started row here =>
    obtain ⟨_, -, same⟩ := Option.map_eq_some_iff.mp sweep
    cases same
  | uncommitted batchId started row r here =>
    obtain ⟨_, -, same⟩ := Option.bind_eq_some_iff.mp sweep
    cases Reply.eq_of_effect same
  | unrequeued => cases Reply.eq_of_effect sweep
  | _ => cases sweep

/-- A starter ends no batch but those that it sweeps. -/
theorem Starter.Step.running {b : Starter} {phase : StarterPhase} (step : b.Step cfg v m phase st)
    (inserts : ∀ new, st = some (.insertBatch new) → v.db.batches.find? new.id = none)
    {batchId : Uuid} (running : Running v.db batchId) :
    Running (v.db.after st) batchId ∨
      b.phase = .sweeping ∧ m.Lands ∧ batchId ∈ sweptIds cfg v := by
  rcases running.after inserts with
    still | ⟨_, _, _, finish⟩ | ⟨_, _, sweep, run, found, stale⟩
  · exact .inl still
  · rcases step.stmt_cases finish with ⟨same, -⟩ | ⟨_, same, -⟩ | ⟨_, same, -⟩ <;> cases same
  · obtain ⟨sweeping, lands, rfl⟩ := step.sweeping sweep
    exact .inr ⟨sweeping, lands, List.mem_map.mpr ⟨run,
      List.mem_filter.mpr ⟨Table.mem_of_find? found, stale⟩, Table.key_of_find? found⟩⟩

/-- A runner that marks its batch has nothing more to mark, if it is not misled. -/
theorem Worker.Step.marks {w : Worker σ} {phase : WorkerPhase σ} (step : w.Step cfg v m phase st)
    (calm : ∀ r, m = .reply r → ¬ w.phase.Misled r) {batchId : Uuid} {status : BatchStatus}
    {report : Report} {now : Time} (finish : st = some (.finish batchId status report now)) :
    ¬ phase.Marks := by
  obtain ⟨-, ⟨stats, completing⟩ | rfl⟩ := step.finishes finish
  -- from `completing` only a lost answer leads on to the second UPDATE of `batch_run`
  · cases step with
    | completed => exact id
    | uncompleted stats' r e here bad =>
      obtain ⟨e, rfl⟩ := Reply.eq_failed bad fun e lost => calm r rfl (by rw [here, lost]; trivial)
      cases finish
    | claimed _ _ here | unclaimed _ _ _ _ here | unloaded _ here | read _ here | unread _ _ here
    | output _ _ _ here | engineError _ _ _ here | raised _ _ _ here | committed _ _ _ here
    | uncommitted _ _ _ _ here | settled _ _ _ _ _ here | unsettled _ _ _ _ _ _ _ here
    | marked _ _ here | requeued _ here =>
      rw [completing] at here
      cases here
    | crashed => cases finish
  · exact id

/-- A runner ends no batch but the one it marks. -/
theorem Worker.Step.running {w : Worker σ} {phase : WorkerPhase σ} (step : w.Step cfg v m phase st)
    {batchId : Uuid} (running : Running v.db batchId) :
    Running (v.db.after st) batchId ∨
      ∃ status report now, st = some (.finish batchId status report now) := by
  have inserts : ∀ new, st = some (.insertBatch new) → v.db.batches.find? new.id = none :=
    fun new insert => absurd rfl ((step.updates insert).2.1 new)
  refine (running.after inserts).imp id fun ended => ended.resolve_right ?_
  rintro ⟨before, now, sweep, -⟩
  exact (step.updates sweep).2.2 before now rfl

/-- Who marks its batch after a step has had to before. -/
theorem Worker.Step.marks_before {w : Worker σ} {phase : WorkerPhase σ}
    (step : w.Step cfg v m phase st) (marks : phase.Marks) : w.phase.Marks := by
  cases step with
  | crashed | completed | marked | requeued => exact marks.elim
  | claimed _ _ here | unclaimed _ _ _ _ here | unloaded _ here | read _ here | unread _ _ here
  | output _ _ _ here | engineError _ _ _ here | raised _ _ _ here | committed _ _ _ here
  | uncommitted _ _ _ _ here | settled _ _ _ _ _ here | unsettled _ _ _ _ _ _ _ here
  | uncompleted _ _ _ here =>
    rw [here]
    trivial

/-- A starter that goes on to a requeue has swept its batches in this step. -/
theorem Starter.Step.requeues {b : Starter} {phase : StarterPhase} (step : b.Step cfg v m phase st)
    {ids : List Uuid} (here : phase = .requeueing ids) :
    ids = sweptIds cfg v ∧ st = some (.sweep (staleBefore cfg v.now) v.now) := by
  cases step with
  | swept =>
    split at here
    · rcases b.swept_cases with eq | eq <;> rw [eq] at here <;> cases here
    · cases here
      exact ⟨rfl, rfl⟩
  | requeued => rcases b.swept_cases with eq | eq <;> rw [eq] at here <;> cases here
  | _ => cases here

/-! ### The invariant -/

/-- The batch has a terminal status. -/
def Finished (db : Db σ) (batchId : Uuid) : Prop :=
  ∃ run, db.batches.find? batchId = some run ∧ run.status.Terminal

theorem Finished.frozen {batchId : Uuid} (h : Finished db batchId) {db' : Db σ}
    (frozen : Frozen db db') : Finished db' batchId := by
  obtain ⟨run, found, terminal⟩ := h
  obtain ⟨run', found', same⟩ := frozen.batches batchId run found terminal
  exact ⟨run', found', same ▸ terminal⟩

theorem Finished.not_running {batchId : Uuid} (h : Finished db batchId) : ¬ Running db batchId := by
  rintro ⟨run, found, running⟩
  obtain ⟨run', found', terminal⟩ := h
  cases found.symm.trans found'
  rcases terminal with done | done <;> cases running.symm.trans done

theorem finished_of_swept {batchId : Uuid} (swept : batchId ∈ Starter.sweptIds cfg v) :
    Finished (v.db.after (some (.sweep (Starter.staleBefore cfg v.now) v.now))) batchId := by
  obtain ⟨run, mem, rfl⟩ := List.mem_map.mp swept
  obtain ⟨mem, old⟩ := List.mem_filter.mp mem
  have found : (v.db.after (some (.sweep (Starter.staleBefore cfg v.now) v.now))).batches.find? run.id =
      some ((Stmt.sweep (Starter.staleBefore cfg v.now) v.now : Stmt σ).onBatch run) := by
    rw [Db.after, Stmt.find?_exec_batches _ (by simp), Table.find?_of_mem mem, Option.map_some]
  exact ⟨_, found, .inr (by simp [Stmt.onBatch, old])⟩

/-- The batch of a runner is `RUNNING` until the runner marks it, and the runner holds what it has
yet to settle; what a starter requeues is of batches that are over. -/
def Call.Owned (db : Db σ) : Call σ → Prop
  | .gate _ => True
  | .worker w => (w.phase.Marks → Running db w.batchId) ∧ w.Holds db
  | .starter b => ∀ ids, b.phase = .requeueing ids → ∀ batchId ∈ ids, Finished db batchId

structure State.Owned (s : State σ) : Prop where
  once : Pool.Exclusive Call.batchId s.calls
  calls : ∀ (i : ℕ) (c : Call σ), s.calls[i]? = some c → c.Owned s.db

theorem WorkerPhase.marks_of_left {phase : WorkerPhase σ} {id : Uuid} (member : id ∈ phase.left) :
    phase.Marks := by
  cases phase with
  | requeueing | returned | gone => cases member
  | _ => trivial

theorem Worker.live_of_marks {w : Worker σ} (marks : w.phase.Marks) : w.ended = false := by
  obtain ⟨batchId, phase⟩ := w
  cases phase with
  | requeueing | returned | gone => exact marks.elim
  | _ => rfl

theorem Worker.marks_of_due {w : Worker σ} {now : Time} {x : Stmt σ} (due : w.due cfg now = some x) :
    w.phase.Marks := by
  obtain ⟨batchId, phase⟩ := w
  cases phase with
  | requeueing | returned | gone => cases due
  | _ => trivial

/-- The UPDATE due spares the terminal rows: the reviews are held, the batch is `RUNNING`. -/
theorem State.Owned.due_spares {s : State σ} (h : s.Owned) {i : ℕ} {w : Worker σ}
    (here : s.calls[i]? = some (.worker w)) {now : Time} {x : Stmt σ} (due : w.due cfg now = some x) :
    x.SparesTerminal s.db := by
  have processing : ∀ id ∈ w.phase.left, ∀ row ∈ s.db.reviews.find? id, row.status = .processing := by
    intro id mine row found
    obtain ⟨row', found', status, -⟩ := (h.calls i _ here).2.taken id mine
    cases found.symm.trans found'
    exact status
  rcases Worker.due_cases due with ⟨work, stored, out, phase, rfl⟩ |
    ⟨work, row, todo, willRetry, handler, phase, rfl⟩ | ⟨status, report, rfl⟩
  -- the commit, the settling of one row, the mark on the batch
  · intro id mine found there failed
    rw [phase] at processing
    cases (processing id (List.mem_append_left _ mine) found there).symm.trans failed
  · rw [phase] at processing
    have first := processing row.id List.mem_cons_self
    rcases settleStmt_cases cfg willRetry row now with ⟨_, eq⟩ | ⟨_, eq⟩ <;> rw [eq]
    · intro found there committed
      cases (first found there).symm.trans committed
    · rintro found there (terminal | terminal) <;> cases (first found there).symm.trans terminal
  · intro run found terminal
    have running := (h.calls i _ here).1 (Worker.marks_of_due due)
    exact absurd running (Finished.not_running ⟨run, found, terminal⟩)

theorem State.Owned.spares {s : State σ} (h : s.Owned) (a : Action σ) : SparesTerminal cfg s a := by
  cases a with
  | tick | request => trivial
  | act i m =>
    match here : s.calls[i]? with
    | some (.worker w) =>
      exact (whereLands_worker here).mpr fun _ x due => h.due_spares here due
    | some (.gate g) => exact whereLands_gate here
    | some (.starter b) => exact whereLands_starter here
    | none => simp [SparesTerminal, WhereLands, here]

/-- A step of another call leaves a call what it owns, if it leaves a runner that has yet to mark
its batch the batch and its reviews. -/
theorem Call.Owned.after {d : Call σ} (h : d.Owned db) (frozen : Frozen db (db.after st))
    (spared : ∀ w, d = .worker w → w.phase.Marks → Running db w.batchId →
      Running (db.after st) w.batchId ∧
        ∀ id, TakenFor db w.batchId id → TakenFor (db.after st) w.batchId id) :
    d.Owned (db.after st) := by
  cases d with
  | gate => trivial
  | starter b => exact fun ids here batchId mem => (h ids here batchId mem).frozen frozen
  | worker w =>
    obtain ⟨running, distinct, taken⟩ := h
    have kept := fun marks => spared w rfl marks (running marks)
    exact ⟨fun marks => (kept marks).1, distinct,
      fun id member => (kept (WorkerPhase.marks_of_left member)).2 id (taken id member)⟩

theorem Request.owned (r : Request) (running : ∀ batchId, r = .runBatchToCompletion batchId →
    Running db batchId) : (r.call : Call σ).Owned db := by
  cases r with
  | gateAndStore => trivial
  | startBatch | sweepStaleBatches => exact fun ids here => nomatch here
  | runBatchToCompletion batchId => exact ⟨fun _ => running batchId rfl, .nothing rfl⟩

theorem Worker.Step.owned {w : Worker σ} {phase : WorkerPhase σ} (step : w.Step cfg v m phase st)
    (mine : (Call.worker w).Owned v.db) (led : ∀ r, m = .reply r → ¬ w.phase.Misled r) :
    (Call.worker (w.enter phase)).Owned (v.db.after st) := by
  refine ⟨fun marks => ?_, step.holds led mine.2⟩
  rcases step.running (mine.1 (step.marks_before marks)) with still | ⟨_, _, _, finish⟩
  · exact still
  · exact absurd marks (step.marks led finish)

theorem Worker.Step.owned_beside {w : Worker σ} {phase : WorkerPhase σ}
    (step : w.Step cfg v m phase st) (mine : (Call.worker w).Owned v.db) {d : Call σ}
    (h : d.Owned v.db) (frozen : Frozen v.db (v.db.after st))
    (other : d.batchId ≠ some w.batchId) : d.Owned (v.db.after st) := by
  refine h.after frozen ?_
  rintro w' rfl _ running
  have apart : w'.batchId ≠ w.batchId := fun same => other (congrArg some same)
  refine ⟨?_, fun id taken => step.spares mine.2 apart taken⟩
  rcases step.running running with still | ⟨_, _, _, finish⟩
  · exact still
  · exact absurd (step.finishes finish).1.symm apart

theorem Starter.Step.owned {b : Starter} {phase : StarterPhase} (step : b.Step cfg v m phase st) :
    (Call.starter (b.enter phase)).Owned (v.db.after st) := by
  -- what it goes on to requeue it has marked `FAILED` in this step
  intro ids requeues batchId mem
  obtain ⟨rfl, rfl⟩ := step.requeues requeues
  exact finished_of_swept mem

theorem Starter.Step.owned_beside {b : Starter} {phase : StarterPhase}
    (step : b.Step cfg v m phase st) (mine : (Call.starter b).Owned v.db) {d : Call σ}
    (h : d.Owned v.db) (frozen : Frozen v.db (v.db.after st))
    (inserts : ∀ new, st = some (.insertBatch new) → v.db.batches.find? new.id = none)
    (led : b.phase = .sweeping → m.Lands → d.OutOf (sweptIds cfg v)) :
    d.Owned (v.db.after st) := by
  refine h.after frozen ?_
  rintro w rfl marks running
  refine ⟨?_, fun id taken => step.spares ?_ taken⟩
  · rcases step.running inserts running with still | ⟨sweeping, lands, swept⟩
    · exact still
    · exact absurd swept (led sweeping lands (Worker.live_of_marks marks))
  · exact fun ids requeues mem => (mine ids requeues _ mem).not_running running

/-- The gate writes reviews only, and changes no accepted one. -/
theorem State.Sound.owned_beside {s : State σ} (sound : s.Sound) {i : ℕ} {g : Gate}
    {phase : GatePhase} (here : s.calls[i]? = some (.gate g))
    (step : g.Step cfg (s.view cfg i) m phase st) {d : Call σ} (h : d.Owned s.db)
    (frozen : Frozen s.db (s.db.after st)) : d.Owned (s.db.after st) := by
  have batches : ∀ id, (s.db.after st).batches.find? id = s.db.batches.find? id := fun id => by
    obtain rfl | ⟨_, rfl⟩ := step.puts
    · rfl
    · rw [Db.after, Stmt.find?_exec_batches _ (by simp)]
      exact Option.map_id'
  refine h.after frozen fun w _ _ running => ⟨?_, fun id taken => ?_⟩
  · rw [Running, batches]
    exact running
  · obtain ⟨row, found, processing, batch⟩ := taken
    have accepted : row.Accepted := by simp [processing]
    have kept := (sound.gate here step).accepted_of_gate step.puts found accepted
    exact ⟨row, kept, processing, batch⟩

theorem State.Owned.step {ok : State σ → Action σ → Prop} {s s' : State σ} {a : Action σ}
    (h : s.Owned) (reachable : Reachable cfg ok s) (step : s.step cfg a = some s')
    (calm : Undisturbed cfg s a) : s'.Owned := by
  have frozen : Frozen s.db s'.db := (State.frozen_iff reachable step).mpr (h.spares a)
  refine ⟨State.once_step h.once step ?_, fun j d hj => ?_⟩
  · rintro batchId rfl
    exact calm.1
  cases State.stepped step with
  | tick => exact h.calls j d hj
  | request r =>
    rcases Pool.getElem?_append_cases hj with ⟨-, rfl⟩ | old
    · refine r.owned fun batchId same => ?_
      subst same
      exact calm.2
    · exact h.calls j d old
  | gate i m g phase st here gs =>
    rcases Pool.getElem?_set_cases hj with ⟨-, rfl⟩ | ⟨other, old⟩
    · trivial
    · exact (State.sound reachable).owned_beside here gs (h.calls j d old) frozen
  | worker i m w phase st here ws =>
    have led : ∀ r, m = .reply r → ¬ w.phase.Misled r := by
      rintro r rfl
      exact calm _ here r rfl
    rcases Pool.getElem?_set_cases hj with ⟨-, rfl⟩ | ⟨other, old⟩
    · exact ws.owned (h.calls i _ here) led
    · refine ws.owned_beside (h.calls i _ here) (h.calls j d old) frozen fun same => ?_
      exact other (h.once j i _ _ w.batchId old here same rfl)
  | starter i m b phase st here bs =>
    rcases Pool.getElem?_set_cases hj with ⟨-, rfl⟩ | ⟨other, old⟩
    · exact bs.owned
    · refine bs.owned_beside (h.calls i _ here) (h.calls j d old) frozen ?_ ?_
      · exact fun new insert => State.freshBatches reachable i b new here (bs.inserts insert)
      · intro sweeping lands
        exact calm _ here (by rw [sweeping]; rfl) lands d (List.mem_of_getElem? old)

/-! ### Runs -/

theorem State.owned {s : State σ} (reachable : Reachable cfg (Undisturbed cfg) s) : s.Owned := by
  refine Runs.Reachable.invariant (fun s init => ?_)
    (fun s a s' hr h step calm => h.step hr step calm) reachable
  exact ⟨init.2 ▸ Pool.Exclusive.nil, fun i c hi => by simp [init.2] at hi⟩

/-- In a run in which nothing disturbs a batch, every UPDATE by id spares the terminal rows, and a
terminal status is for good. -/
theorem kept_if_undisturbed {s : State σ} (reachable : State.Reachable cfg (Undisturbed cfg) s) :
    (∀ a, SparesTerminal cfg s a) ∧
    ∀ s', Runs.Reachable (fun t => t = s) (State.step cfg) (Undisturbed cfg) s' →
      Frozen s.db s'.db := by
  refine ⟨(State.owned reachable).spares, fun s' later => ?_⟩
  exact reachable.across (R := fun s s' : State σ => Frozen s.db s'.db) (fun s => Frozen.refl s.db)
    (fun _ _ _ => Frozen.trans)
    (fun s a s' hr step _ => (State.frozen_iff hr step).mpr ((State.owned hr).spares a)) later

/-- A runner dies over its batch; a sweep gives the review back, and the next batch commits it. -/
example : ∃ s : State ℕ,
    Runs.performGuarded (State.step defaults) (Undisturbed defaults) .start
      (sampleBatch ++ [.act 2 .crash, .tick (61 * 60 * 1000000), .request .startBatch,
        .act 3 (.reply .ok)] ++ startsBatch 3 78 ++
        [.request (.runBatchToCompletion 78), .act 4 (.claim [] [7] .ok), .act 4 (.reply .ok),
          .act 4 (.engine (.output (sampleOutput 0 1))), .act 4 (.reply .ok),
          .act 4 (.reply .ok)]) = some s ∧
    (s.db.reviews.find? 7).map (·.status) = some .committed ∧ Finished s.db 78 :=
  ⟨_, rfl, rfl, _, rfl, .inl rfl⟩

end DostReview.Review
