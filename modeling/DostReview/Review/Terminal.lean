import DostReview.Review.Accepted

/-!
# Terminal statuses

`COMMITTED` and `FAILED` are meant to be the end of a review, `COMPLETED` and `FAILED` of a
batch. Four UPDATEs of the batch runner select their row by its id alone. A step moves a row
on from a terminal status exactly when one of them takes effect on such a row.
-/
namespace DostReview.Review

variable {σ : Type} {cfg : Config σ} {db db' : Db σ} {st : Option (Stmt σ)}

def ReviewStatus.Terminal (status : ReviewStatus) : Prop := status = .committed ∨ status = .failed

def BatchStatus.Terminal (status : BatchStatus) : Prop := status = .completed ∨ status = .failed

instance (status : ReviewStatus) : Decidable status.Terminal :=
  inferInstanceAs (Decidable (_ ∨ _))

instance (status : BatchStatus) : Decidable status.Terminal :=
  inferInstanceAs (Decidable (_ ∨ _))

/-- Every terminal status is kept. -/
structure Frozen (db db' : Db σ) : Prop where
  reviews : ∀ id row, db.reviews.find? id = some row → row.status.Terminal →
    ∃ row', db'.reviews.find? id = some row' ∧ row'.status = row.status
  batches : ∀ id row, db.batches.find? id = some row → row.status.Terminal →
    ∃ row', db'.batches.find? id = some row' ∧ row'.status = row.status

theorem Frozen.refl (db : Db σ) : Frozen db db :=
  ⟨fun _ row found _ => ⟨row, found, rfl⟩, fun _ row found _ => ⟨row, found, rfl⟩⟩

theorem Frozen.trans {db₁ db₂ db₃ : Db σ} (h : Frozen db₁ db₂) (h' : Frozen db₂ db₃) :
    Frozen db₁ db₃ := by
  refine ⟨fun id row found terminal => ?_, fun id row found terminal => ?_⟩
  · obtain ⟨row', found', same⟩ := h.reviews id row found terminal
    obtain ⟨row'', found'', same'⟩ := h'.reviews id row' found' (same ▸ terminal)
    exact ⟨row'', found'', same'.trans same⟩
  · obtain ⟨row', found', same⟩ := h.batches id row found terminal
    obtain ⟨row'', found'', same'⟩ := h'.batches id row' found' (same ▸ terminal)
    exact ⟨row'', found'', same'.trans same⟩

/-- An UPDATE by id that finds no row it would move on from a terminal status. -/
def Stmt.SparesTerminal (db : Db σ) : Stmt σ → Prop
  | commitProfile _ ids _ => ∀ id ∈ ids, ∀ row ∈ db.reviews.find? id, row.status ≠ .failed
  | deadLetter id _ _ => ∀ row ∈ db.reviews.find? id, row.status ≠ .committed
  | giveBack id _ => ∀ row ∈ db.reviews.find? id, ¬ row.status.Terminal
  | finish id status _ _ => ∀ row ∈ db.batches.find? id, row.status.Terminal → row.status = status
  | _ => True

/-- The UPDATE a step is about to make by id alone spares the terminal rows. -/
def SparesTerminal (cfg : Config σ) (s : State σ) : Action σ → Prop :=
  WhereLands (fun w => ∀ x ∈ w.due cfg s.now, x.SparesTerminal s.db) s

instance (db : Db σ) : ∀ x : Stmt σ, Decidable (x.SparesTerminal db)
  | .commitProfile _ ids _ =>
    inferInstanceAs (Decidable (∀ id ∈ ids, ∀ row ∈ db.reviews.find? id, row.status ≠ .failed))
  | .deadLetter id _ _ =>
    inferInstanceAs (Decidable (∀ row ∈ db.reviews.find? id, row.status ≠ .committed))
  | .giveBack id _ =>
    inferInstanceAs (Decidable (∀ row ∈ db.reviews.find? id, ¬ row.status.Terminal))
  | .finish id status _ _ =>
    inferInstanceAs
      (Decidable (∀ row ∈ db.batches.find? id, row.status.Terminal → row.status = status))
  | .putReview _ => isTrue trivial
  | .claim _ _ => isTrue trivial
  | .requeue _ => isTrue trivial
  | .sweep _ _ => isTrue trivial
  | .insertBatch _ => isTrue trivial

instance (cfg : Config σ) (s : State σ) (a : Action σ) : Decidable (SparesTerminal cfg s a) :=
  inferInstanceAs (Decidable (WhereLands _ s a))

/-! ### Statements -/

theorem Stmt.frozen_iff_rows {x : Stmt σ} (plain : ∀ row, x ≠ .putReview row)
    (plain' : ∀ row, x ≠ .insertBatch row) :
    Frozen db (x.exec db) ↔
      (∀ id row, db.reviews.find? id = some row → row.status.Terminal →
        (x.onReview row).status = row.status) ∧
      ∀ id row, db.batches.find? id = some row → row.status.Terminal →
        (x.onBatch row).status = row.status := by
  have reviews : ∀ id row, db.reviews.find? id = some row →
      (x.exec db).reviews.find? id = some (x.onReview row) := fun id row found => by
    rw [find?_exec x plain, found, Option.map_some]
  have batches : ∀ id row, db.batches.find? id = some row →
      (x.exec db).batches.find? id = some (x.onBatch row) := fun id row found => by
    rw [find?_exec_batches x plain', found, Option.map_some]
  -- an UPDATE leaves every row where it was found
  constructor
  · rintro ⟨rows, runs⟩
    refine ⟨fun id row found terminal => ?_, fun id row found terminal => ?_⟩
    · obtain ⟨row', found', same⟩ := rows id row found terminal
      rwa [← Option.some.inj ((reviews id row found).symm.trans found')] at same
    · obtain ⟨row', found', same⟩ := runs id row found terminal
      rwa [← Option.some.inj ((batches id row found).symm.trans found')] at same
  · rintro ⟨rows, runs⟩
    exact ⟨fun id row found terminal => ⟨_, reviews id row found, rows id row found terminal⟩,
      fun id row found terminal => ⟨_, batches id row found, runs id row found terminal⟩⟩

theorem Stmt.frozen_iff_reviews {x : Stmt σ} (plain : ∀ row, x ≠ .putReview row)
    (plain' : ∀ row, x ≠ .insertBatch row) (idle : ∀ run, x.onBatch run = run) :
    Frozen db (x.exec db) ↔ ∀ id row, db.reviews.find? id = some row → row.status.Terminal →
      (x.onReview row).status = row.status := by
  rw [frozen_iff_rows plain plain', and_iff_left fun _ run _ _ => by rw [idle]]

theorem Stmt.frozen_iff_batches {x : Stmt σ} (plain : ∀ row, x ≠ .putReview row)
    (plain' : ∀ row, x ≠ .insertBatch row) (idle : ∀ row, x.onReview row = row) :
    Frozen db (x.exec db) ↔ ∀ id run, db.batches.find? id = some run → run.status.Terminal →
      (x.onBatch run).status = run.status := by
  rw [frozen_iff_rows plain plain', and_iff_right fun _ row _ _ => by rw [idle]]

theorem Stmt.frozen_claim {limit : ℕ} {skipped ids : List Uuid} (picks : Picks db limit skipped ids)
    (batchId : Uuid) : Frozen db ((Stmt.claim batchId ids).exec db) := by
  refine (frozen_iff_reviews (by simp) (by simp) fun _ => rfl).mpr fun id row found terminal => ?_
  have untaken : row.id ∉ ids := fun taken => by
    simp [ReviewStatus.Terminal, picks.status found taken] at terminal
  simp [onReview, untaken]

theorem Stmt.frozen_requeue (ids : List Uuid) : Frozen db ((Stmt.requeue ids).exec db) := by
  refine (frozen_iff_reviews (by simp) (by simp) fun _ => rfl).mpr fun id row found terminal => ?_
  rcases terminal with status | status <;> simp [onReview, status]

theorem Stmt.frozen_sweep (before now : Time) : Frozen db ((Stmt.sweep before now).exec db) := by
  refine (frozen_iff_batches (by simp) (by simp) fun _ => rfl).mpr fun id run found terminal => ?_
  rcases terminal with status | status <;> simp [onBatch, stale, status]

theorem Stmt.frozen_insertBatch {new : BatchRow} (absent : db.batches.find? new.id = none) :
    Frozen db ((Stmt.insertBatch new).exec db) := by
  refine ⟨fun id row found _ => ⟨row, ?_, rfl⟩, fun id row found _ => ⟨row, ?_, rfl⟩⟩
  · rw [find?_exec _ (by simp), found]
    rfl
  · have other : id ≠ new.id := by
      rintro rfl
      rw [absent] at found
      cases found
    simp [other, found]

theorem Stmt.frozen_commitProfile (row : ReputationRow σ) (ids : List Uuid) (now : Time) :
    Frozen db ((Stmt.commitProfile row ids now).exec db) ↔
      (Stmt.commitProfile row ids now).SparesTerminal db := by
  rw [frozen_iff_reviews (by simp) (by simp) fun _ => rfl]
  refine ⟨fun h id mem row found failed => ?_, fun h id row found terminal => ?_⟩
  · have key : row.id = id := Table.key_of_find? found
    simpa [onReview, key, mem, failed] using h id row found (.inr failed)
  · have key : row.id = id := Table.key_of_find? found
    -- a row of the profile becomes `COMMITTED`, whatever it was
    by_cases mem : id ∈ ids
    · simpa [onReview, key, mem] using (terminal.resolve_right (h id mem row found)).symm
    · simp [onReview, key, mem]

theorem Stmt.frozen_deadLetter (id : Uuid) (retryCount : ℕ) (now : Time) :
    Frozen db ((Stmt.deadLetter id retryCount now).exec db) ↔
      (Stmt.deadLetter id retryCount now : Stmt σ).SparesTerminal db := by
  rw [frozen_iff_reviews (by simp) (by simp) fun _ => rfl,
    Table.forall_find?_iff id fun row other _ => by simp [onReview, other]]
  refine forall₂_congr fun row found => ?_
  have key : row.id = id := Table.key_of_find? found
  cases row.status <;> simp [onReview, key, ReviewStatus.Terminal]

theorem Stmt.frozen_giveBack (id : Uuid) (retryCount : ℕ) :
    Frozen db ((Stmt.giveBack id retryCount).exec db) ↔
      (Stmt.giveBack id retryCount : Stmt σ).SparesTerminal db := by
  rw [frozen_iff_reviews (by simp) (by simp) fun _ => rfl,
    Table.forall_find?_iff id fun row other _ => by simp [onReview, other]]
  refine forall₂_congr fun row found => ?_
  have key : row.id = id := Table.key_of_find? found
  cases row.status <;> simp [onReview, key, ReviewStatus.Terminal]

theorem Stmt.frozen_finish (id : Uuid) (status : BatchStatus) (report : Report) (now : Time) :
    Frozen db ((Stmt.finish id status report now).exec db) ↔
      (Stmt.finish id status report now : Stmt σ).SparesTerminal db := by
  rw [frozen_iff_batches (by simp) (by simp) fun _ => rfl,
    Table.forall_find?_iff id fun row other _ => by simp [onBatch, other]]
  refine forall₂_congr fun row found => imp_congr_right fun _ => ?_
  have key : row.id = id := Table.key_of_find? found
  simp [onBatch, key, eq_comm]

/-- The UPDATE due spares the terminal rows exactly when it freezes them. -/
theorem Worker.frozen_iff_due {w : Worker σ} {now : Time} {x : Stmt σ}
    (due : w.due cfg now = some x) : Frozen db (x.exec db) ↔ x.SparesTerminal db := by
  rcases Worker.due_cases due with ⟨work, _, out, -, rfl⟩ | ⟨_, row, _, willRetry, _, -, rfl⟩ |
    ⟨status, report, rfl⟩
  · exact Stmt.frozen_commitProfile _ _ _
  · rcases settleStmt_cases cfg willRetry row now with ⟨_, eq⟩ | ⟨_, eq⟩
    · exact eq ▸ Stmt.frozen_deadLetter _ _ _
    · exact eq ▸ Stmt.frozen_giveBack _ _
  · exact Stmt.frozen_finish _ _ _ _

/-! ### The INSERT of a batch -/

/-- The batch a call has inserted and not committed. -/
def Starter.written (b : Starter) : Option BatchRow :=
  match b.phase with
  | .committing _ _ row => row
  | _ => none

theorem Starter.lock_of_written {b : Starter} {row : BatchRow} (h : b.written = some row) :
    b.lock cfg = some cfg.startLock := by
  unfold written at h
  split at h
  next here => simp [Starter.lock, here]
  next => cases h

theorem Starter.Step.written {v : View σ} {m : Move σ} {b : Starter} {phase : StarterPhase}
    (step : b.Step cfg v m phase st) {row : BatchRow} (h : (b.enter phase).written = some row) :
    st = none ∧ v.db.batches.find? row.id = none := by
  cases step with
  -- the only step that writes a batch
  | inserted id start here absent =>
    cases h
    exact ⟨rfl, absent⟩
  | swept here =>
    simp only [Starter.enter, Starter.written] at h
    split at h
    next committing =>
      split at committing
      · unfold Starter.swept at committing
        split at committing <;> cases committing
      · cases committing
    next => cases h
  | requeued ids here =>
    simp only [Starter.enter, Starter.written, Starter.swept] at h
    split at h
    next committing => split at committing <;> cases committing
    next => cases h
  | _ => cases h

theorem Starter.Step.inserts {v : View σ} {m : Move σ} {b : Starter} {phase : StarterPhase}
    (step : b.Step cfg v m phase st) {row : BatchRow} (h : st = some (.insertBatch row)) :
    b.written = some row := by
  rcases step.stmt_cases h with ⟨same, -⟩ | ⟨_, same, -⟩ | ⟨_, same, batchId, started, here⟩ <;>
    cases same
  simp [Starter.written, here]

/-- No batch has the id of one that is about to be inserted. -/
def State.FreshBatches (s : State σ) : Prop :=
  ∀ (i : ℕ) (b : Starter) (row : BatchRow), s.calls[i]? = some (.starter b) →
    b.written = some row → s.db.batches.find? row.id = none

/-- Only an INSERT adds a batch. -/
theorem find?_batches_after_eq_none {id : Uuid} (absent : db.batches.find? id = none)
    (other : ∀ row, st = some (.insertBatch row) → row.id ≠ id) :
    (db.after st).batches.find? id = none := by
  rcases st with _ | x
  · exact absent
  by_cases insert : ∃ row, x = .insertBatch row
  · obtain ⟨row, rfl⟩ := insert
    simp [Db.after, (other row rfl).symm, absent]
  · rw [Db.after, Stmt.find?_exec_batches x fun row same => insert ⟨row, same⟩, absent, Option.map_none]

theorem State.FreshBatches.step {s s' : State σ} {a : Action σ} (h : s.FreshBatches)
    (locks : Pool.Exclusive (Call.lock cfg) s.calls) (step : s.step cfg a = some s') :
    s'.FreshBatches := by
  cases State.stepped step with
  | tick => exact h
  | request r =>
    intro j b row hj written
    rcases Pool.getElem?_append_cases hj with ⟨-, same⟩ | old
    · cases r <;> cases same <;> cases written
    · exact h j b row old written
  | gate i m g phase st here gs =>
    intro j b row hj written
    rcases Pool.getElem?_set_cases hj with ⟨-, same⟩ | ⟨-, old⟩
    · cases same
    · refine find?_batches_after_eq_none (h j b row old written) fun new insert => ?_
      obtain none | ⟨_, put⟩ := gs.puts <;> simp_all
  | worker i m w phase st here ws =>
    intro j b row hj written
    rcases Pool.getElem?_set_cases hj with ⟨-, same⟩ | ⟨-, old⟩
    · cases same
    · exact find?_batches_after_eq_none (h j b row old written)
        fun new insert => absurd rfl ((ws.updates insert).2.1 new)
  | starter i m b phase st here bs =>
    intro j b' row hj written
    rcases Pool.getElem?_set_cases hj with ⟨-, same⟩ | ⟨other, old⟩
    · cases same
      obtain ⟨rfl, absent⟩ := bs.written written
      exact absent
    · refine find?_batches_after_eq_none (h j b' row old written) fun new insert => ?_
      -- two starters cannot both hold the lock
      exact absurd (locks j i _ _ cfg.startLock old here (Starter.lock_of_written written)
        (Starter.lock_of_written (bs.inserts insert))) other

theorem State.freshBatches {ok : State σ → Action σ → Prop} {s : State σ}
    (reachable : Reachable cfg ok s) : s.FreshBatches := by
  refine Runs.Reachable.invariant (fun s init => ?_) (fun s a s' hr h step _ => ?_) reachable
  · intro i b row hi
    simp [init.2] at hi
  · exact h.step (State.locks_exclusive hr) step

/-! ### One step -/

theorem State.frozen_iff {ok : State σ → Action σ → Prop} {s s' : State σ} {a : Action σ}
    (reachable : Reachable cfg ok s) (step : s.step cfg a = some s') :
    Frozen s.db s'.db ↔ SparesTerminal cfg s a := by
  have sound := State.sound reachable
  cases State.stepped step with
  | tick | request => exact iff_of_true (Frozen.refl _) trivial
  | gate i m g phase st here gs =>
    refine iff_of_true ⟨fun id row found terminal => ?_, fun id row found _ => ?_⟩
      (whereLands_gate here)
    -- the gate changes no accepted row, and every terminal row is accepted
    · have accepted : row.Accepted := by rcases terminal with h | h <;> simp [h]
      exact ⟨row, (sound.gate here gs).accepted_of_gate gs.puts found accepted, rfl⟩
    · refine ⟨row, ?_, rfl⟩
      obtain rfl | ⟨new, rfl⟩ := gs.puts
      · exact found
      · simp [Db.after, Stmt.find?_exec_batches, found, Stmt.onBatch]
  | worker i m w phase st here ws =>
    rw [SparesTerminal, whereLands_worker here]
    cases effect : st with
    | none =>
      refine iff_of_true (Frozen.refl _) fun lands x due => ?_
      cases effect.symm.trans (ws.due_lands lands due)
    | some x =>
      rcases ws.stmt_cases effect with ⟨skipped, ids, ready, picks, rfl⟩ | ⟨lands, due⟩ | ⟨here', rfl⟩
      · exact iff_of_true (Stmt.frozen_claim picks _) (by simp [Worker.due, ready])
      · refine (Worker.frozen_iff_due due).trans ⟨fun h _ y due' => ?_, fun h => h lands x due⟩
        exact Option.some.inj (due.symm.trans due') ▸ h
      · exact iff_of_true (Stmt.frozen_requeue _) (by simp [Worker.due, here'])
  | starter i m b phase st here bs =>
    refine iff_of_true ?_ (whereLands_starter here)
    cases effect : st with
    | none => exact Frozen.refl _
    | some x =>
      rcases bs.stmt_cases effect with ⟨rfl, -⟩ | ⟨ids, rfl, -⟩ | ⟨row, rfl, -⟩
      · exact Stmt.frozen_sweep _ _
      · exact Stmt.frozen_requeue _
      · exact Stmt.frozen_insertBatch
          (State.freshBatches reachable i b row here (bs.inserts effect))

/-- In a run whose UPDATEs by id spare the terminal rows, a terminal status is for good; and
a step changes one exactly when its UPDATE does not spare it. -/
theorem terminal_final {s : State σ} (reachable : State.Reachable cfg (SparesTerminal cfg) s) :
    (∀ s', Runs.Reachable (fun t => t = s) (State.step cfg) (SparesTerminal cfg) s' →
      Frozen s.db s'.db) ∧
    ∀ a s', s.step cfg a = some s' → (Frozen s.db s'.db ↔ SparesTerminal cfg s a) := by
  refine ⟨fun s' later => ?_, fun a s' step => State.frozen_iff reachable step⟩
  exact reachable.across (R := fun s s' : State σ => Frozen s.db s'.db) (fun s => Frozen.refl s.db)
    (fun _ _ _ => Frozen.trans) (fun s a s' hr step spares => (State.frozen_iff hr step).mpr spares)
    later

/-- A batch that takes one review to its end, after which both rows stay as they are. -/
theorem terminal_final_batch : ∃ s : State ℕ,
    Runs.performGuarded (State.step defaults) (SparesTerminal defaults) .start
      (sampleBatch ++ [.act 2 (.engine (.output (sampleOutput 0 1))), .act 2 (.reply .ok),
        .act 2 (.reply .ok)]) = some s ∧
    ∀ s', Runs.Reachable (fun t => t = s) (State.step defaults) (SparesTerminal defaults) s' →
      (∃ row, s'.db.reviews.find? 7 = some row ∧ row.status = .committed) ∧
      ∃ row, s'.db.batches.find? 77 = some row ∧ row.status = .completed := by
  have run : Runs.performGuarded (State.step defaults) (SparesTerminal defaults) .start
    (sampleBatch ++ [.act 2 (.engine (.output (sampleOutput 0 1))), .act 2 (.reply .ok),
      .act 2 (.reply .ok)]) = some _ := rfl
  refine ⟨_, run, fun s' later => ?_⟩
  have frozen := (terminal_final (Runs.Reachable.performGuarded (.start ⟨rfl, rfl⟩) run)).1 s' later
  exact ⟨frozen.reviews 7 _ rfl (.inl rfl), frozen.batches 77 _ rfl (.inl rfl)⟩

/-- The acknowledgement of a commit is lost, and the handler gives the review back; and a
batch that a sweep has given up completes. -/
theorem terminal_not_final :
    (∃ (s s' : State ℕ) (a : Action ℕ), State.Reachable defaults Runs.Anything s ∧
      s.step defaults a = some s' ∧ (s.db.reviews.find? 7).map (·.status) = some .committed ∧
      (s'.db.reviews.find? 7).map (·.status) = some .gated) ∧
    ∃ (s s' : State ℕ) (a : Action ℕ), State.Reachable defaults Runs.Anything s ∧
      s.step defaults a = some s' ∧ (s.db.batches.find? 77).map (·.status) = some .failed ∧
      (s'.db.batches.find? 77).map (·.status) = some .completed := by
  constructor
  · have run : Runs.perform (State.step defaults) .start
      (sampleBatch ++ [.act 2 (.engine (.output (sampleOutput 0 1))),
        .act 2 (.reply (.lost "connection was closed"))]) = some _ := rfl
    exact ⟨_, _, .act 2 (.reply .ok), State.reachable_of_run run, rfl, rfl, rfl⟩
  · have run : Runs.perform (State.step defaults) .start
      (sampleBatch ++ [.tick (61 * 60 * 1000000), .request .sweepStaleBatches, .act 3 (.reply .ok),
        .act 3 (.reply .ok), .act 2 (.engine (.output (sampleOutput 0 1))), .act 2 (.reply .ok)]) =
        some _ := rfl
    exact ⟨_, _, .act 2 (.reply .ok), State.reachable_of_run run, rfl, rfl, rfl⟩

end DostReview.Review
