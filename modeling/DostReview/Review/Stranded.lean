import DostReview.Review.Terminal

/-!
# Reviews in `PROCESSING`

A review in `PROCESSING` gets out of it by the call that holds it, by the requeue of its
batch, or by a sweep, which looks at `RUNNING` batches only. Marking a batch and requeueing
its reviews are two statements. A review is stranded when a call stops between them, or when
the worker of a batch that is no longer `RUNNING` stops.
-/
namespace DostReview.Review

variable {σ : Type} {cfg : Config σ} {db db' : Db σ} {v : View σ} {m : Move σ}
  {st : Option (Stmt σ)}

def InGroups (id : Uuid) (groups : List (Uuid × List ReviewRow)) : Prop :=
  ∃ g ∈ groups, ∃ row ∈ g.2, row.id = id

instance (id : Uuid) (groups : List (Uuid × List ReviewRow)) : Decidable (InGroups id groups) :=
  inferInstanceAs (Decidable (∃ g ∈ groups, ∃ row ∈ g.2, row.id = id))

/-- What a worker has yet to settle of the reviews it claimed; once its batch has failed,
whatever is left of them. -/
def WorkerPhase.Owes (id : Uuid) : WorkerPhase σ → Prop
  | .ready => False
  | .loading w => InGroups id w.groups
  | .processing w _ => InGroups id w.groups
  | .committing w _ _ => InGroups id w.groups
  | .settling w todo _ _ => (∃ row ∈ todo, row.id = id) ∨ InGroups id w.rest
  | .completing _ => False
  | .failing _ => True
  | .requeueing => True
  | .returned status => status = .failed
  | .gone => True

instance (id : Uuid) : ∀ phase : WorkerPhase σ, Decidable (phase.Owes id)
  | .ready => isFalse nofun
  | .loading w => inferInstanceAs (Decidable (InGroups id w.groups))
  | .processing w _ => inferInstanceAs (Decidable (InGroups id w.groups))
  | .committing w _ _ => inferInstanceAs (Decidable (InGroups id w.groups))
  | .settling w todo _ _ =>
    inferInstanceAs (Decidable ((∃ row ∈ todo, row.id = id) ∨ InGroups id w.rest))
  | .completing _ => isFalse nofun
  | .failing _ => isTrue trivial
  | .requeueing => isTrue trivial
  | .returned status => inferInstanceAs (Decidable (status = .failed))
  | .gone => isTrue trivial

/-- A live call that has yet to settle or requeue a review of a batch. -/
def Call.Answers (batchId id : Uuid) : Call σ → Prop
  | .gate _ => False
  | .worker w => w.batchId = batchId ∧ w.ended = false ∧ w.phase.Owes id
  | .starter ⟨_, .requeueing ids⟩ => batchId ∈ ids
  | .starter _ => False

instance (batchId id : Uuid) (c : Call σ) : Decidable (c.Answers batchId id) := by
  unfold Call.Answers
  split <;> infer_instance

def Running (db : Db σ) (batchId : Uuid) : Prop :=
  ∃ run ∈ db.batches.find? batchId, run.status = .running

instance (db : Db σ) (batchId : Uuid) : Decidable (Running db batchId) :=
  inferInstanceAs (Decidable (∃ run ∈ db.batches.find? batchId, run.status = .running))

/-- Every review in `PROCESSING` will get out of it: a later sweep finds its batch, or a call
answers for it. -/
def Covered (s : State σ) : Prop :=
  ∀ row ∈ s.db.reviews.rows, row.status = .processing →
    ∃ batchId ∈ row.batchId, Running s.db batchId ∨ ∃ c ∈ s.calls, c.Answers batchId row.id

instance (s : State σ) : Decidable (Covered s) :=
  inferInstanceAs (Decidable (∀ row ∈ s.db.reviews.rows, row.status = .processing →
    ∃ batchId ∈ row.batchId, Running s.db batchId ∨ ∃ c ∈ s.calls, c.Answers batchId row.id))

/-- The call stops short of its requeue: it dies, or the requeue fails. -/
def Call.Abandons : Call σ → Move σ → Prop
  | _, .crash => True
  | .worker ⟨_, .requeueing⟩, .reply (.failed _) => True
  | .starter ⟨_, .requeueing _⟩, .reply (.failed _) => True
  | _, _ => False

/-- The sweep marks its batches, but its answer is lost. -/
def Call.SweepsBlindly : Call σ → Move σ → Prop
  | .starter ⟨_, .sweeping⟩, .reply (.lost _) => True
  | _, _ => False

def Call.batchId : Call σ → Option Uuid
  | .worker w => some w.batchId
  | _ => none

def AnsweredElsewhere (s : State σ) (i : ℕ) (batchId id : Uuid) : Prop :=
  ∃ c ∈ Pool.others s.calls i, c.Answers batchId id

/-- A call that stops short of its requeue leaves no review in `PROCESSING` for which it
alone answers and whose batch is not `RUNNING`; a sweep whose answer is lost, none for which
no other call answers. -/
def Call.LeavesNone (cfg : Config σ) (s : State σ) (i : ℕ) (m : Move σ) (c : Call σ) : Prop :=
  ∀ row ∈ s.db.reviews.rows, row.status = .processing → ∀ batchId ∈ row.batchId,
    (c.Abandons m → c.Answers batchId row.id →
      Running s.db batchId ∨ AnsweredElsewhere s i batchId row.id) ∧
    (c.SweepsBlindly m → batchId ∈ Starter.sweptIds cfg (s.view cfg i) →
      AnsweredElsewhere s i batchId row.id)

/-- A batch is run by one call, and the call that takes a step leaves none behind. -/
def LeavesNone (cfg : Config σ) (s : State σ) : Action σ → Prop
  | .tick _ => True
  | .request (.runBatchToCompletion batchId) => ∀ c ∈ s.calls, c.batchId ≠ some batchId
  | .request _ => True
  | .act i m => ∀ c ∈ s.calls[i]?, c.LeavesNone cfg s i m

instance (c : Call σ) (m : Move σ) : Decidable (c.Abandons m) := by
  unfold Call.Abandons
  split <;> infer_instance

instance (c : Call σ) (m : Move σ) : Decidable (c.SweepsBlindly m) := by
  unfold Call.SweepsBlindly
  split <;> infer_instance

instance (s : State σ) (i : ℕ) (batchId id : Uuid) : Decidable (AnsweredElsewhere s i batchId id) :=
  inferInstanceAs (Decidable (∃ c ∈ Pool.others s.calls i, c.Answers batchId id))

instance (s : State σ) (i : ℕ) (m : Move σ) : DecidablePred (Call.LeavesNone cfg s i m) := by
  unfold Call.LeavesNone
  infer_instance

instance (s : State σ) : DecidablePred (LeavesNone cfg s)
  | .tick _ => isTrue trivial
  | .request (.runBatchToCompletion batchId) =>
    inferInstanceAs (Decidable (∀ c ∈ s.calls, c.batchId ≠ some batchId))
  | .request (.gateAndStore _ _) => isTrue trivial
  | .request .startBatch => isTrue trivial
  | .request .sweepStaleBatches => isTrue trivial
  | .act i m => inferInstanceAs (Decidable (∀ c ∈ s.calls[i]?, c.LeavesNone cfg s i m))

/-! ### What a step does to a row in `PROCESSING` -/

/-- An UPDATE leaves a row in `PROCESSING` only if it does not match it, or claims it. -/
theorem Stmt.onReview_processing {x : Stmt σ} {row : ReviewRow}
    (h : (x.onReview row).status = .processing) :
    x.onReview row = row ∨ ∃ batchId ids, x = .claim batchId ids ∧ row.id ∈ ids ∧
      (x.onReview row).batchId = some batchId := by
  cases x with
  | claim batchId ids =>
    by_cases taken : row.id ∈ ids
    · exact .inr ⟨batchId, ids, rfl, taken, by simp [onReview, taken]⟩
    · exact .inl (by simp [onReview, taken])
  | commitProfile new ids now | deadLetter id retryCount now | giveBack id retryCount
  | requeue ids =>
    simp only [onReview] at h ⊢
    split at h
    · cases h
    next other => exact .inl (if_neg other)
  | putReview | finish | sweep | insertBatch => exact .inl rfl

theorem requeue_moves {row : ReviewRow} {batchId : Uuid} {ids : List Uuid}
    (h : row.status = .processing) (batch : row.batchId = some batchId) (mem : batchId ∈ ids) :
    (Stmt.requeue ids : Stmt σ).onReview row ≠ row := by
  intro kept
  have matched : row.batchId ∈ ids.map some := batch ▸ List.mem_map.mpr ⟨batchId, mem, rfl⟩
  simp only [Stmt.onReview, h, matched, and_self, if_true] at kept
  rw [← kept] at h
  cases h

/-- A row in `PROCESSING` after a statement was so before, and not matched, or was claimed. -/
theorem processing_after (written : ∀ new, st = some (.putReview new) → new.status ≠ .processing)
    {row : ReviewRow} (mem : row ∈ (db.after st).reviews.rows) (h : row.status = .processing) :
    (row ∈ db.reviews.rows ∧ ∀ x, st = some x → x.onReview row = row) ∨
      ∃ batchId ids, st = some (.claim batchId ids) ∧ row.id ∈ ids ∧ row.batchId = some batchId := by
  rcases st with _ | x
  · exact .inl ⟨mem, by simp⟩
  have found : (x.exec db).reviews.find? row.id = some row := Table.find?_of_mem mem
  -- the gate's upserts write no row in `PROCESSING`; of the UPDATEs only the claim makes one
  by_cases put : ∃ new, x = .putReview new
  · obtain ⟨new, rfl⟩ := put
    rw [Stmt.find?_exec_putReview] at found
    split at found
    · cases found
      exact absurd h (written _ rfl)
    · refine .inl ⟨Table.mem_of_find? found, fun x same => ?_⟩
      cases same
      rfl
  · rw [Stmt.find?_exec x fun new same => put ⟨new, same⟩] at found
    obtain ⟨old, foundOld, same⟩ := Option.map_eq_some_iff.mp found
    rcases Stmt.onReview_processing (same ▸ h) with kept | ⟨batchId, ids, rfl, taken, batch⟩
    · rw [kept] at same
      subst same
      exact .inl ⟨Table.mem_of_find? foundOld, fun y eq => Option.some.inj eq ▸ kept⟩
    · rw [same] at batch
      exact .inr ⟨batchId, ids, rfl, Table.key_of_find? foundOld ▸ taken, batch⟩

/-! ### What a worker owes -/

theorem owes_nextProfile {id : Uuid} {rest : List (Uuid × List ReviewRow)} (stats : Stats)
    (h : InGroups id rest) : (nextProfile rest stats : WorkerPhase σ).Owes id := by
  cases rest with
  | nil => obtain ⟨g, mem, -⟩ := h; cases mem
  | cons g rest => exact h

theorem owes_settle {id : Uuid} {work : Work} {todo : List ReviewRow} (willRetry handler : Bool)
    (h : (∃ row ∈ todo, row.id = id) ∨ InGroups id work.rest) :
    (settle work todo willRetry handler : WorkerPhase σ).Owes id := by
  cases todo with
  | nil => exact owes_nextProfile _ (h.resolve_left (by simp))
  | cons row todo => exact h

theorem inGroups_cons {id : Uuid} {work : Work} :
    InGroups id work.groups ↔ (∃ row ∈ work.rows, row.id = id) ∨ InGroups id work.rest := by
  simp [InGroups, Work.groups]

theorem owes_handle {id : Uuid} {work : Work} (h : InGroups id work.groups) :
    (work.handle : WorkerPhase σ).Owes id :=
  owes_settle _ _ (inGroups_cons.mp h)

theorem owes_claimed {limit : ℕ} {skipped ids : List Uuid} (picks : Picks db limit skipped ids)
    (batchId : Uuid) {id : Uuid} (taken : id ∈ ids) :
    (Worker.claimed (claimedRows db batchId ids) : WorkerPhase σ).Owes id := by
  have all := claimedRows_ids batchId fun id h =>
    (picks.gated h).imp fun _ found => found.1
  rw [← all] at taken
  obtain ⟨row, mem, same⟩ := List.mem_map.mp taken
  obtain ⟨g, group, inside⟩ := mem_group mem
  exact owes_nextProfile _ ⟨g, group, row, inside, same⟩

/-- A worker goes on owing a review of its batch that its step leaves in `PROCESSING`. -/
theorem Worker.Step.owes {w : Worker σ} {phase : WorkerPhase σ} (step : w.Step cfg v m phase st)
    (sound : w.phase.Sound v.db) {row : ReviewRow} (h : row.status = .processing)
    (still : ∀ x, st = some x → x.onReview row = row) (owes : w.phase.Owes row.id) :
    phase.Owes row.id := by
  cases step with
  | crashed | unclaimed | unloaded | uncompleted | marked => trivial
  | requeued => exact rfl
  | claimed skipped ids here | completed stats here =>
    rw [here] at owes
    exact owes.elim
  | read work here | output work stored out here =>
    rw [here] at owes
    exact owes
  | unread work r here | raised work stored e here | uncommitted work stored out r here =>
    rw [here] at owes
    exact owes_handle owes
  | engineError work stored willRetry here =>
    rw [here] at owes
    exact owes_settle _ _ (inGroups_cons.mp owes)
  | committed work stored out here =>
    rw [here] at owes
    refine owes_nextProfile _ ((inGroups_cons.mp owes).resolve_left ?_)
    rintro ⟨mine, mem, same⟩
    -- a row of the profile is `COMMITTED` now
    have kept := still _ rfl
    have held : row.id ∈ work.rows.map (·.id) := List.mem_map.mpr ⟨mine, mem, same⟩
    simp only [Work.commit, Stmt.onReview, held, if_true] at kept
    rw [← kept] at h
    cases h
  -- the first row has left `PROCESSING`, the later ones are still to come
  | settled work first todo willRetry handler here =>
    rw [here] at owes
    refine owes_settle _ _ ?_
    rcases owes with ⟨mine, mem, same⟩ | rest
    · rcases List.mem_cons.mp mem with rfl | later
      · have settled := onReview_settle_self cfg willRetry v.now same.symm
        rw [still _ rfl, h] at settled
        simp at settled
      · exact .inl ⟨mine, later, same⟩
    · exact .inr rest
  -- from within the handler the exception leaves `run_batch`; otherwise the handler starts over
  | unsettled work first todo willRetry handler r e here =>
    rw [here] at owes sound
    cases handler with
    | true => trivial
    | false =>
      refine owes_handle (inGroups_cons.mpr (owes.imp_left ?_))
      rintro ⟨mine, mem, same⟩
      exact ⟨mine, sound.2 mem, same⟩

/-- A claim that takes effect leaves its worker live, owing what it has taken. -/
theorem Worker.Step.claims {w : Worker σ} {phase : WorkerPhase σ} (step : w.Step cfg v m phase st)
    {batchId : Uuid} {ids : List Uuid} (claim : st = some (.claim batchId ids)) {id : Uuid}
    (taken : id ∈ ids) :
    batchId = w.batchId ∧ phase.Owes id ∧ (w.enter phase).ended = false := by
  have settle := settleStmt_ne (x := .claim batchId ids) (by simp) (by simp) cfg
  cases step with
  | claimed skipped ids' here picks =>
    cases claim
    exact ⟨rfl, owes_claimed picks _ taken, w.live_of_onward (onward_nextProfile _ _)⟩
  | unclaimed skipped ids' r e here picks =>
    cases Reply.eq_of_effect claim
    exact ⟨rfl, trivial, rfl⟩
  | settled => exact absurd (Option.some.inj claim) (settle _ _ _)
  | unsettled => exact absurd (Reply.eq_of_effect claim) (settle _ _ _)
  | uncommitted | uncompleted | marked | requeued => cases Reply.eq_of_effect claim
  | _ => cases claim

/-! ### The invariant -/

/-- Every review in `PROCESSING` is owed by the worker that claimed it. -/
def State.Claimed (s : State σ) : Prop :=
  ∀ row ∈ s.db.reviews.rows, row.status = .processing → ∃ batchId ∈ row.batchId,
    ∃ (i : ℕ) (w : Worker σ), s.calls[i]? = some (.worker w) ∧ w.batchId = batchId ∧
      w.phase.Owes row.id

theorem State.Sound.written_not_processing {s : State σ} (sound : s.Sound) {i : ℕ} {g : Gate}
    {phase : GatePhase} (here : s.calls[i]? = some (.gate g))
    (step : g.Step cfg (s.view cfg i) m phase st) (new : ReviewRow)
    (put : st = some (.putReview new)) : new.status ≠ .processing := by
  rcases step.put_cases sound.clean (sound.calls _ _ here) put with rejected | ⟨start, -, rfl⟩
  · simp [rejected]
  · simp [gatedRow]

/-- In a step of another call, a worker goes on owing what it owes. -/
theorem State.Claimed.elsewhere {s : State σ} (h : s.Claimed) {i : ℕ} {c : Call σ}
    (here : s.calls[i]? = some c) (other : ∀ w, c ≠ .worker w) (c' : Call σ) {row : ReviewRow}
    (mem : row ∈ s.db.reviews.rows) (processing : row.status = .processing) :
    ∃ batchId ∈ row.batchId, ∃ (j : ℕ) (w : Worker σ),
      (s.calls.set i c')[j]? = some (.worker w) ∧ w.batchId = batchId ∧ w.phase.Owes row.id := by
  obtain ⟨batchId, batch, j, w, hj, same, owes⟩ := h row mem processing
  have apart : i ≠ j := by
    rintro rfl
    exact other w (Option.some.inj (here.symm.trans hj))
  exact ⟨batchId, batch, j, w, by rw [List.getElem?_set_ne apart]; exact hj, same, owes⟩

theorem State.Claimed.step {s s' : State σ} {a : Action σ} (h : s.Claimed) (sound : s.Sound)
    (step : s.step cfg a = some s') : s'.Claimed := by
  cases State.stepped step with
  | tick => exact h
  | request r =>
    intro row mem processing
    obtain ⟨batchId, batch, j, w, hj, same, owes⟩ := h row mem processing
    have within : j < s.calls.length := (List.getElem?_eq_some_iff.mp hj).1
    exact ⟨batchId, batch, j, w, by rw [List.getElem?_append_left within]; exact hj, same, owes⟩
  | gate i m g phase st here gs =>
    intro row mem processing
    rcases processing_after (sound.written_not_processing here gs) mem processing with
      ⟨old, -⟩ | ⟨_, _, claim, -⟩
    · exact h.elsewhere here (by simp) _ old processing
    · obtain rfl | ⟨_, rfl⟩ := gs.puts <;> cases claim
  | starter i m b phase st here bs =>
    intro row mem processing
    rcases processing_after (fun new put => absurd put (bs.plain new)) mem processing with
      ⟨old, -⟩ | ⟨_, _, claim, -⟩
    · exact h.elsewhere here (by simp) _ old processing
    · rcases bs.stmt_cases claim with ⟨same, -⟩ | ⟨_, same, -⟩ | ⟨_, same, -⟩ <;> cases same
  | worker i m w phase st here ws =>
    have within : i < s.calls.length := (List.getElem?_eq_some_iff.mp here).1
    intro row mem processing
    -- a row the worker has claimed it owes; of an older one its worker is this or another
    rcases processing_after (fun new put => absurd put (ws.plain new)) mem processing with
      ⟨old, still⟩ | ⟨batchId, ids, claim, taken, batch⟩
    · obtain ⟨batchId, batch, j, w', hj, same, owes⟩ := h row old processing
      by_cases mine : i = j
      · subst mine
        cases here.symm.trans hj
        exact ⟨batchId, batch, i, _, List.getElem?_set_self within, same,
          ws.owes (sound.calls _ _ here) processing still owes⟩
      · exact ⟨batchId, batch, j, w', by rw [List.getElem?_set_ne mine]; exact hj, same, owes⟩
    · obtain ⟨rfl, owes, -⟩ := ws.claims claim taken
      exact ⟨_, batch, i, _, List.getElem?_set_self within, rfl, owes⟩

/-- A step keeps every batch `RUNNING` but the one it finishes or those it sweeps. -/
theorem Running.after {batchId : Uuid} (h : Running db batchId)
    (fresh : ∀ new, st = some (.insertBatch new) → db.batches.find? new.id = none) :
    Running (db.after st) batchId ∨
      (∃ status report now, st = some (.finish batchId status report now)) ∨
      ∃ before now, st = some (.sweep before now) ∧
        ∃ run ∈ db.batches.find? batchId, Stmt.stale before run = true := by
  obtain ⟨run, found, running⟩ := h
  rcases st with _ | x
  · exact .inl ⟨run, found, running⟩
  have key : run.id = batchId := Table.key_of_find? found
  have kept : (∀ new, x ≠ .insertBatch new) → x.onBatch run = run → Running (x.exec db) batchId := by
    intro plain same
    refine ⟨run, ?_, running⟩
    rw [Stmt.find?_exec_batches x plain, found, Option.map_some, same]
    exact rfl
  -- the INSERT is of a new id; only `finish` and `sweep` move a row of `batch_run`
  cases x with
  | insertBatch new =>
    have other : batchId ≠ new.id := by
      rintro rfl
      cases (fresh new rfl).symm.trans found
    exact .inl ⟨run, by simp [Db.after, other, found], running⟩
  | finish id status report now =>
    by_cases mine : run.id = id
    · exact .inr (.inl ⟨status, report, now, by rw [← mine, key]⟩)
    · exact .inl (kept (by simp) (by simp [Stmt.onBatch, mine]))
  | sweep before now =>
    by_cases old : Stmt.stale before run = true
    · exact .inr (.inr ⟨before, now, rfl, run, found, old⟩)
    · exact .inl (kept (by simp) (by simp [Stmt.onBatch, old]))
  | putReview | claim | commitProfile | deadLetter | giveBack | requeue =>
    exact .inl (kept (by simp) rfl)

/-! ### The call that takes the step -/

/-- A worker ends by its death, by completing its batch, or after its requeue. -/
theorem Worker.Step.ends {w : Worker σ} {phase : WorkerPhase σ} (step : w.Step cfg v m phase st)
    (ended : (w.enter phase).ended = true) :
    m = .crash ∨ (∃ stats, w.phase = .completing stats) ∨
      ∃ r, w.phase = .requeueing ∧ m = .reply r ∧ st = r.effect (.requeue [w.batchId]) := by
  have onward : ¬ phase.Onward := fun onward => by
    cases (w.live_of_onward onward).symm.trans ended
  cases step with
  | crashed => exact .inl rfl
  | completed stats here => exact .inr (.inl ⟨stats, here⟩)
  | requeued r here => exact .inr (.inr ⟨r, here, rfl, rfl⟩)
  | claimed | committed => exact absurd (onward_nextProfile _ _) onward
  | unread | raised | uncommitted | engineError | settled =>
    exact absurd (onward_settle _ _ _ _) onward
  | unsettled work row todo willRetry handler =>
    cases handler with
    | true => cases ended
    | false => exact absurd (onward_settle _ _ _ _) onward
  | _ => cases ended

/-- A worker that answered for a review goes on answering, unless it abandons it. -/
theorem Worker.Step.answers {w : Worker σ} {phase : WorkerPhase σ} (step : w.Step cfg v m phase st)
    (sound : w.phase.Sound v.db) {row : ReviewRow} (h : row.status = .processing)
    (still : ∀ x, st = some x → x.onReview row = row) {batchId : Uuid}
    (batch : row.batchId = some batchId) (answers : (Call.worker w).Answers batchId row.id) :
    (Call.worker w).Abandons m ∨ (Call.worker (w.enter phase)).Answers batchId row.id := by
  obtain ⟨rfl, -, owes⟩ := answers
  cases ended : (w.enter phase).ended with
  | false => exact .inr ⟨rfl, ended, step.owes sound h still owes⟩
  | true =>
    left
    -- a call that ends after its requeue has moved the row, unless the requeue failed
    rcases step.ends ended with rfl | ⟨stats, here⟩ | ⟨r, here, rfl, rfl⟩
    · trivial
    · rw [here] at owes
      exact owes.elim
    · obtain ⟨id, phase₀⟩ := w
      subst here
      cases r with
      | failed => trivial
      | ok | lost => exact absurd (still _ rfl) (requeue_moves h batch (List.mem_singleton_self _))

theorem Starter.Step.answers {b : Starter} {phase : StarterPhase} (step : b.Step cfg v m phase st)
    {row : ReviewRow} (h : row.status = .processing)
    (still : ∀ x, st = some x → x.onReview row = row) {batchId : Uuid}
    (batch : row.batchId = some batchId)
    (answers : (Call.starter b : Call σ).Answers batchId row.id) :
    (Call.starter b).Abandons m := by
  obtain ⟨opens, phase₀⟩ := b
  cases phase₀ with
  | requeueing ids =>
    -- a requeue that takes effect moves the row, and this one has stayed
    have effective : st ≠ some (.requeue ids) := fun effect =>
      requeue_moves h batch answers (still _ effect)
    cases step with
    | crashed => trivial
    | requeued ids' here =>
      cases here
      exact absurd rfl effective
    | unrequeued ids' r bad here =>
      cases here
      cases r with
      | ok => exact absurd rfl bad
      | failed => trivial
      | lost => exact absurd rfl effective
    | gaveUp m other => exact absurd rfl (other ids)
    | swept here | unswept r bad here | opened here | locked start here | occupied start row here
    | vacant start here | inserted id start here | committed batchId started row here
    | uncommitted batchId started row r here => cases here
  | _ => exact answers.elim

/-- A call that stops short of its requeue does nothing more. -/
theorem Worker.Step.abandons {w : Worker σ} {phase : WorkerPhase σ} (step : w.Step cfg v m phase st)
    (abandons : (Call.worker w).Abandons m) : st = none ∧ (w.enter phase).ended = true := by
  obtain ⟨id, phase₀⟩ := w
  -- it dies, or its requeue fails; every other answer abandons nothing
  cases step with
  | crashed => exact ⟨rfl, rfl⟩
  | requeued r here =>
    cases here
    cases r with
    | failed => exact ⟨rfl, rfl⟩
    | ok | lost => exact abandons.elim
  | unread work r here | uncommitted work stored out r here | unsettled work row todo _ _ r e here
  | uncompleted stats r e here | marked e r here =>
    cases here
    cases r <;> exact abandons.elim
  | read work here | committed work stored out here | settled work row todo _ _ here
  | completed stats here =>
    cases here
    exact abandons.elim
  | _ => exact abandons.elim

theorem Starter.Step.abandons {b : Starter} {phase : StarterPhase} (step : b.Step cfg v m phase st)
    (abandons : (Call.starter b).Abandons m) : st = none ∧ phase = .gone := by
  obtain ⟨opens, phase₀⟩ := b
  cases step with
  | crashed | gaveUp => exact ⟨rfl, rfl⟩
  | unrequeued ids r bad here =>
    cases here
    cases r with
    | ok => exact absurd rfl bad
    | failed => exact ⟨rfl, rfl⟩
    | lost => exact abandons.elim
  | unswept r bad here | uncommitted batchId started row r here =>
    cases here
    cases r <;> exact abandons.elim
  | _ => exact abandons.elim

theorem Starter.Step.blind {b : Starter} {phase : StarterPhase} (step : b.Step cfg v m phase st)
    (blind : (Call.starter b).SweepsBlindly m) :
    st = some (.sweep (staleBefore cfg v.now) v.now) ∧ phase = .gone := by
  obtain ⟨opens, phase₀⟩ := b
  cases phase₀ with
  | sweeping =>
    cases step with
    | unswept r bad here =>
      cases r with
      | ok | failed => exact blind.elim
      | lost => exact ⟨rfl, rfl⟩
    | crashed | swept => exact blind.elim
    | gaveUp m _ other => exact absurd rfl other
    | requeued _ here | unrequeued _ _ _ here | opened here | locked _ here | occupied _ _ here
    | vacant _ here | inserted _ _ here | committed _ _ _ here | uncommitted _ _ _ _ here => cases here
  | _ => exact blind.elim

/-- The worker that finishes a batch has completed it, or goes on to the requeue. -/
theorem Worker.Step.finishes {w : Worker σ} {phase : WorkerPhase σ} (step : w.Step cfg v m phase st)
    {batchId : Uuid} {status : BatchStatus} {report : Report} {now : Time}
    (finish : st = some (.finish batchId status report now)) :
    w.batchId = batchId ∧ ((∃ stats, w.phase = .completing stats) ∨ phase = .requeueing) := by
  -- the two UPDATEs of `batch_run`, acknowledged or not
  have settle := settleStmt_ne (x := .finish batchId status report now) (by simp) (by simp) cfg
  cases step with
  | completed stats here =>
    cases finish
    exact ⟨rfl, .inl ⟨stats, here⟩⟩
  | uncompleted stats r e here =>
    cases Reply.eq_of_effect finish
    exact ⟨rfl, .inl ⟨stats, here⟩⟩
  | marked e r here =>
    cases Reply.eq_of_effect finish
    exact ⟨rfl, .inr rfl⟩
  | settled => exact absurd (Option.some.inj finish) (settle _ _ _)
  | unsettled => exact absurd (Reply.eq_of_effect finish) (settle _ _ _)
  | unclaimed | uncommitted | requeued => cases Reply.eq_of_effect finish
  | _ => cases finish

/-- The starter that sweeps a batch goes on to requeue its reviews, or knows nothing of it. -/
theorem Starter.Step.sweeps {b : Starter} {phase : StarterPhase} (step : b.Step cfg v m phase st)
    {before now : Time} (sweep : st = some (.sweep before now)) {batchId id : Uuid} {run : BatchRow}
    (found : run ∈ v.db.batches.find? batchId) (old : Stmt.stale before run = true) :
    (Call.starter (b.enter phase) : Call σ).Answers batchId id ∨
      (Call.starter b).SweepsBlindly m ∧ batchId ∈ Starter.sweptIds cfg v := by
  have swept : before = staleBefore cfg v.now → batchId ∈ sweptIds cfg v := by
    rintro rfl
    exact List.mem_map.mpr ⟨run, List.mem_filter.mpr ⟨Table.mem_of_find? found, old⟩,
      Table.key_of_find? found⟩
  cases step with
  | swept here =>
    cases sweep
    left
    have mem := swept rfl
    have marked : sweptIds cfg v ≠ [] := List.ne_nil_of_mem mem
    rw [if_neg marked]
    exact mem
  | unswept r bad here =>
    obtain ⟨opens, phase₀⟩ := b
    cases here
    cases r with
    | ok => exact absurd rfl bad
    | failed => cases sweep
    | lost =>
      cases sweep
      exact .inr ⟨trivial, swept rfl⟩
  | committed batchId started row here =>
    obtain ⟨_, -, same⟩ := Option.map_eq_some_iff.mp sweep
    cases same
  | uncommitted batchId started row r here =>
    obtain ⟨_, -, same⟩ := Option.bind_eq_some_iff.mp sweep
    cases Reply.eq_of_effect same
  | unrequeued => cases Reply.eq_of_effect sweep
  | _ => cases sweep

/-! ### One step -/

theorem State.mem_calls_set {s : State σ} {i j : ℕ} {c d : Call σ} (hj : s.calls[j]? = some d)
    (other : j ≠ i) : d ∈ s.calls.set i c :=
  List.mem_of_getElem? (by rw [List.getElem?_set_ne (Ne.symm other)]; exact hj)

theorem AnsweredElsewhere.after {s : State σ} {i : ℕ} {batchId id : Uuid} {c : Call σ}
    (h : AnsweredElsewhere s i batchId id) : ∃ d ∈ s.calls.set i c, d.Answers batchId id := by
  obtain ⟨d, other, answers⟩ := h
  obtain ⟨j, ne, hj⟩ := Pool.mem_others.mp other
  exact ⟨d, State.mem_calls_set hj ne, answers⟩

/-- A step of a call covers a row that was in `PROCESSING` before it. -/
theorem Covered.old {s : State σ} (h : Covered s) {i : ℕ} {c : Call σ} (c' : Call σ)
    (here : s.calls[i]? = some c) (leaves : LeavesNone cfg s (.act i m)) {row : ReviewRow}
    (mem : row ∈ s.db.reviews.rows) (processing : row.status = .processing)
    (inserts : ∀ new, st = some (.insertBatch new) → s.db.batches.find? new.id = none)
    (goesOn : ∀ batchId, row.batchId = some batchId → c.Answers batchId row.id →
      c.Abandons m ∧ st = none ∨ c'.Answers batchId row.id)
    (finishes : ∀ batchId status report now, row.batchId = some batchId →
      st = some (.finish batchId status report now) → c'.Answers batchId row.id)
    (sweeps : ∀ batchId before now run, row.batchId = some batchId →
      st = some (.sweep before now) → run ∈ s.db.batches.find? batchId →
      Stmt.stale before run = true → c'.Answers batchId row.id ∨
        c.SweepsBlindly m ∧ batchId ∈ Starter.sweptIds cfg (s.view cfg i)) :
    ∃ batchId ∈ row.batchId, Running (s.db.after st) batchId ∨
      ∃ d ∈ s.calls.set i c', d.Answers batchId row.id := by
  have within : i < s.calls.length := (List.getElem?_eq_some_iff.mp here).1
  have mine : c' ∈ s.calls.set i c' := List.mem_of_getElem? (List.getElem?_set_self within)
  obtain ⟨batchId, batch, covered⟩ := h row mem processing
  refine ⟨batchId, batch, ?_⟩
  have guard := leaves c here row mem processing batchId batch
  have running : Running s.db batchId → Running (s.db.after st) batchId ∨
      ∃ d ∈ s.calls.set i c', d.Answers batchId row.id := by
    intro running
    rcases running.after inserts with still | ⟨status, report, now, finish⟩ |
      ⟨before, now, sweep, run, found, old⟩
    · exact .inl still
    · exact .inr ⟨c', mine, finishes batchId status report now batch finish⟩
    · rcases sweeps batchId before now run batch sweep found old with answers | ⟨blind, swept⟩
      · exact .inr ⟨c', mine, answers⟩
      · exact .inr (guard.2 blind swept).after
  -- a batch that stops `RUNNING` passes its reviews to the call that stopped it
  rcases covered with run | ⟨d, live, answers⟩
  · exact running run
  · obtain ⟨j, hj⟩ := List.mem_iff_getElem?.mp live
    by_cases same : j = i
    · subst same
      cases here.symm.trans hj
      rcases goesOn batchId batch answers with ⟨abandons, rfl⟩ | answers'
      · exact (guard.1 abandons answers).imp id AnsweredElsewhere.after
      · exact .inr ⟨c', mine, answers'⟩
    · exact .inr ⟨d, State.mem_calls_set hj same, answers⟩

theorem Covered.step {s s' : State σ} {a : Action σ} (h : Covered s) (claimed : s.Claimed)
    (sound : s.Sound) (fresh : s.FreshBatches) (once : Pool.Exclusive Call.batchId s.calls)
    (step : s.step cfg a = some s') (leaves : LeavesNone cfg s a) : Covered s' := by
  cases State.stepped step with
  | tick => exact h
  | request r =>
    intro row mem processing
    obtain ⟨batchId, batch, run | ⟨c, live, answers⟩⟩ := h row mem processing
    · exact ⟨batchId, batch, .inl run⟩
    · exact ⟨batchId, batch, .inr ⟨c, List.mem_append_left _ live, answers⟩⟩
  -- the gate touches no batch and no row in `PROCESSING`
  | gate i m g phase st here gs =>
    intro row mem processing
    rcases processing_after (sound.written_not_processing here gs) mem processing with
      ⟨old, -⟩ | ⟨_, _, claim, -⟩
    · refine h.old (.gate (g.enter phase)) here leaves old processing ?_ ?_ ?_ ?_
      · rintro new insert
        obtain rfl | ⟨_, rfl⟩ := gs.puts <;> cases insert
      · exact fun _ _ answers => answers.elim
      · rintro _ _ _ _ - finish
        obtain rfl | ⟨_, rfl⟩ := gs.puts <;> cases finish
      · rintro _ _ _ _ - sweep
        obtain rfl | ⟨_, rfl⟩ := gs.puts <;> cases sweep
    · obtain rfl | ⟨_, rfl⟩ := gs.puts <;> cases claim
  | worker i m w phase st here ws =>
    have within : i < s.calls.length := (List.getElem?_eq_some_iff.mp here).1
    intro row mem processing
    rcases processing_after (fun new put => absurd put (ws.plain new)) mem processing with
      ⟨old, still⟩ | ⟨batchId, ids, claim, taken, batch⟩
    · refine h.old (.worker (w.enter phase)) here leaves old processing ?_ ?_ ?_ ?_
      · exact fun new insert => absurd rfl ((ws.updates insert).2.1 new)
      · intro batchId batch answers
        rcases ws.answers (sound.calls _ _ here) processing still batch answers with abandons | answers'
        · exact .inl ⟨abandons, (ws.abandons abandons).1⟩
        · exact .inr answers'
      · intro batchId status report now batch finish
        obtain ⟨mine, completing | rfl⟩ := ws.finishes finish
        · -- the batch's one worker owes what is in `PROCESSING`, and nothing when it completes
          obtain ⟨batchId', batch', j, w', hj, same, owes⟩ := claimed row old processing
          cases batch.symm.trans batch'
          have one := once i j _ _ batchId here hj (congrArg some mine) (congrArg some same)
          subst one
          cases here.symm.trans hj
          obtain ⟨stats, completing⟩ := completing
          rw [completing] at owes
          exact owes.elim
        · exact ⟨mine, rfl, trivial⟩
      · exact fun _ before now _ _ sweep _ _ => absurd rfl ((ws.updates sweep).2.2 before now)
    · obtain ⟨rfl, owes, live⟩ := ws.claims claim taken
      exact ⟨_, batch, .inr ⟨_, List.mem_of_getElem? (List.getElem?_set_self within), rfl, live, owes⟩⟩
  -- a sweep hands the reviews of the batches it marks to its own requeue
  | starter i m b phase st here bs =>
    intro row mem processing
    rcases processing_after (fun new put => absurd put (bs.plain new)) mem processing with
      ⟨old, still⟩ | ⟨_, _, claim, -⟩
    · refine h.old (.starter (b.enter phase)) here leaves old processing ?_ ?_ ?_ ?_
      · exact fun new insert => fresh i b new here (bs.inserts insert)
      · intro batchId batch answers
        have abandons := bs.answers processing still batch answers
        exact .inl ⟨abandons, (bs.abandons abandons).1⟩
      · rintro _ _ _ _ - finish
        rcases bs.stmt_cases finish with ⟨same, -⟩ | ⟨_, same, -⟩ | ⟨_, same, -⟩ <;> cases same
      · exact fun _ _ _ _ _ sweep found old => bs.sweeps sweep found old
    · rcases bs.stmt_cases claim with ⟨same, -⟩ | ⟨_, same, -⟩ | ⟨_, same, -⟩ <;> cases same

theorem not_running_of_swept {batchId : Uuid} (swept : batchId ∈ Starter.sweptIds cfg v) :
    ¬ Running (v.db.after (some (.sweep (Starter.staleBefore cfg v.now) v.now))) batchId := by
  rintro ⟨run', found', running⟩
  obtain ⟨run, mem, rfl⟩ := List.mem_map.mp swept
  obtain ⟨mem, old⟩ := List.mem_filter.mp mem
  have found' : ((Stmt.sweep (Starter.staleBefore cfg v.now) v.now).exec v.db).batches.find? run.id =
      some run' := found'
  rw [Stmt.find?_exec_batches _ (by simp), Table.find?_of_mem mem, Option.map_some] at found'
  cases found'
  simp [Stmt.onBatch, old] at running

/-- A step that leaves every review covered has abandoned none. -/
theorem LeavesNone.of_covered {s s' : State σ} {i : ℕ} (step : s.step cfg (.act i m) = some s')
    (h : Covered s') : LeavesNone cfg s (.act i m) := by
  intro c here row mem processing batchId batch
  -- who answers after the step is another call than the one that has stopped
  have elsewhere : ∀ c' : Call σ, (∀ b id, ¬ c'.Answers b id) →
      (∃ d ∈ s.calls.set i c', d.Answers batchId row.id) → AnsweredElsewhere s i batchId row.id := by
    rintro c' silent ⟨d, live, answers⟩
    obtain ⟨j, hj⟩ := List.mem_iff_getElem?.mp live
    rcases Pool.getElem?_set_cases hj with ⟨-, rfl⟩ | ⟨other, old⟩
    · exact absurd answers (silent _ _)
    · exact ⟨d, Pool.mem_others.mpr ⟨j, other, old⟩, answers⟩
  cases State.stepped step with
  | gate _ _ g phase st there gs =>
    cases here.symm.trans there
    refine ⟨fun _ answers => answers.elim, fun blind => ?_⟩
    cases m <;> exact blind.elim
  | worker _ _ w phase st there ws =>
    cases here.symm.trans there
    refine ⟨fun abandons _ => ?_, fun blind => by cases m <;> exact blind.elim⟩
    obtain ⟨rfl, ended⟩ := ws.abandons abandons
    obtain ⟨batchId', batch', covered⟩ := h row mem processing
    cases batch.symm.trans batch'
    refine covered.imp id (elsewhere _ fun b id answers => ?_)
    simp [Call.Answers, ended] at answers
  | starter _ _ b phase st there bs =>
    cases here.symm.trans there
    refine ⟨fun abandons _ => ?_, fun blind swept => ?_⟩
    · obtain ⟨rfl, rfl⟩ := bs.abandons abandons
      obtain ⟨batchId', batch', covered⟩ := h row mem processing
      cases batch.symm.trans batch'
      exact covered.imp id (elsewhere (.starter (b.enter .gone)) fun _ _ answers => answers)
    · obtain ⟨rfl, rfl⟩ := bs.blind blind
      have same :
          row ∈ (s.db.after (some (.sweep (Starter.staleBefore cfg s.now) s.now))).reviews.rows :=
        Table.mem_of_find? (by
          rw [Db.after, Stmt.find?_exec _ (by simp), Table.find?_of_mem mem]
          rfl)
      obtain ⟨batchId', batch', run | answered⟩ := h row same processing
      · cases batch.symm.trans batch'
        exact absurd run (not_running_of_swept swept)
      · cases batch.symm.trans batch'
        exact elsewhere (.starter (b.enter .gone)) (fun _ _ answers => answers) answered

/-! ### Runs -/

/-- Calls run different batches, if the arrival's batch is run by no call yet. -/
theorem State.once_step {s s' : State σ} {a : Action σ} (once : Pool.Exclusive Call.batchId s.calls)
    (step : s.step cfg a = some s')
    (new : ∀ batchId, a = .request (.runBatchToCompletion batchId) →
      ∀ c ∈ s.calls, c.batchId ≠ some batchId) : Pool.Exclusive Call.batchId s'.calls := by
  cases State.stepped step with
  | tick => exact once
  | request r =>
    cases r with
    | runBatchToCompletion batchId =>
      intro i j c d k hi hj hc hd
      rcases Pool.getElem?_append_cases hi with ⟨li, rfl⟩ | hi <;>
        rcases Pool.getElem?_append_cases hj with ⟨lj, rfl⟩ | hj
      · exact li.trans lj.symm
      · cases hc
        exact absurd hd (new batchId rfl d (List.mem_of_getElem? hj))
      · cases hd
        exact absurd hc (new batchId rfl c (List.mem_of_getElem? hi))
      · exact once i j c d k hi hj hc hd
    | _ => exact once.append rfl
  | gate | starter => exact once.set fun k none => nomatch none
  | worker i m w phase st here => exact once.set fun k mine => once.kept here mine

theorem State.covered {s : State σ} (reachable : Reachable cfg (LeavesNone cfg) s) :
    Covered s ∧ s.Claimed ∧ Pool.Exclusive Call.batchId s.calls := by
  refine Runs.Reachable.invariant
    (P := fun s : State σ => Covered s ∧ s.Claimed ∧ Pool.Exclusive Call.batchId s.calls)
    (fun s init => ?_) (fun s a s' hr h step leaves => ?_) reachable
  · obtain ⟨empty, none⟩ := init
    have rows : s.db.reviews.rows = [] := by rw [empty]; rfl
    exact ⟨by simp [Covered, rows], by simp [State.Claimed, rows], none ▸ Pool.Exclusive.nil⟩
  · obtain ⟨cov, claimed, once⟩ := h
    have sound := State.sound hr
    refine ⟨cov.step claimed sound (State.freshBatches hr) once step leaves, claimed.step sound step, ?_⟩
    refine State.once_step once step ?_
    rintro batchId rfl
    exact leaves

/-- In a run in which each batch is run by one call and no call that stops short of its
requeue leaves a review behind, no review is stranded in `PROCESSING`; and a call's step
strands one exactly when it leaves one behind. -/
theorem none_stranded {s : State σ} (reachable : State.Reachable cfg (LeavesNone cfg) s) :
    Covered s ∧ ∀ (i : ℕ) (m : Move σ) (s' : State σ), s.step cfg (.act i m) = some s' →
      (Covered s' ↔ LeavesNone cfg s (.act i m)) := by
  obtain ⟨cov, claimed, once⟩ := State.covered reachable
  exact ⟨cov, fun i m s' step => ⟨LeavesNone.of_covered step,
    cov.step claimed (State.sound reachable) (State.freshBatches reachable) once step⟩⟩

/-- The worker of a batch dies, and the sweep an hour later has marked the batch and has yet
to requeue its review. -/
theorem none_stranded_swept : ∃ s : State ℕ,
    Runs.performGuarded (State.step defaults) (LeavesNone defaults) .start
      (sampleBatch ++ [.act 2 .crash, .tick (61 * 60 * 1000000), .request .sweepStaleBatches,
        .act 3 (.reply .ok)]) = some s ∧
    (s.db.reviews.find? 7).map (·.status) = some .processing ∧ ¬ Running s.db 77 ∧ Covered s := by
  have run : Runs.performGuarded (State.step defaults) (LeavesNone defaults) .start
    (sampleBatch ++ [.act 2 .crash, .tick (61 * 60 * 1000000), .request .sweepStaleBatches,
      .act 3 (.reply .ok)]) = some _ := rfl
  refine ⟨_, run, rfl, of_decide_eq_false rfl, ?_⟩
  exact (none_stranded (.performGuarded (.start ⟨rfl, rfl⟩) run)).1

/-- The same, but the sweeper dies there too; or the worker's batch fails and its requeue
fails as well. -/
theorem stranded_in_processing :
    (∃ s : State ℕ, State.Reachable defaults Runs.Anything s ∧
      (s.db.reviews.find? 7).map (·.status) = some .processing ∧ ¬ Covered s) ∧
    ∃ s : State ℕ, State.Reachable defaults Runs.Anything s ∧
      (s.db.reviews.find? 7).map (·.status) = some .processing ∧ ¬ Covered s := by
  constructor
  · have run : Runs.perform (State.step defaults) .start
      (sampleBatch ++ [.act 2 .crash, .tick (61 * 60 * 1000000), .request .sweepStaleBatches,
        .act 3 (.reply .ok), .act 3 .crash]) = some _ := rfl
    exact ⟨_, State.reachable_of_run run, rfl, of_decide_eq_false rfl⟩
  · have run : Runs.perform (State.step defaults) .start
      (.request (.gateAndStore (sampleReview 7 2) none) :: untilCheck 0 ++ checkAndCommit 0 ++
        .request .startBatch :: startsBatch 1 77 ++
        [.request (.runBatchToCompletion 77), .act 2 (.claim [] [7] (.lost "connection was closed")),
          .act 2 (.reply .ok), .act 2 (.reply (.failed "connection was closed"))]) = some _ := rfl
    exact ⟨_, State.reachable_of_run run, rfl, of_decide_eq_false rfl⟩

end DostReview.Review
