import DostReview.Review.Stranded

/-!
# One `RUNNING` batch

`start_batch` looks for a `RUNNING` batch and inserts one under its advisory lock, which it
holds until its commit. No other statement makes a batch `RUNNING`, so from a table with at
most one there is at most one for good, and every answer of `start_batch` goes back to the
step that justifies it.
-/
namespace DostReview.Review

variable {σ : Type} {cfg : Config σ} {db db' : Db σ} {v : View σ} {m : Move σ}
  {st : Option (Stmt σ)}

def OneRunning (db : Db σ) : Prop := ∀ a b, Running db a → Running db b → a = b

/-- No calls yet, and any tables with at most one `RUNNING` batch. -/
def State.StartsFrom (s : State σ) : Prop := s.calls = [] ∧ OneRunning s.db

/-! ### What makes a batch `RUNNING` -/

/-- Of the statements only the INSERT makes a batch `RUNNING`. -/
def Stmt.StartsNone : Stmt σ → Prop
  | .finish _ status _ _ => status ≠ .running
  | .insertBatch _ => False
  | _ => True

theorem Stmt.running_exec {x : Stmt σ} (none : x.StartsNone) {id : Uuid}
    (h : Running (x.exec db) id) : Running db id := by
  obtain ⟨run', found', running⟩ := h
  have plain : ∀ row, x ≠ .insertBatch row := by
    rintro row rfl
    exact none
  rw [Option.mem_def, Stmt.find?_exec_batches x plain] at found'
  obtain ⟨run, found, rfl⟩ := Option.map_eq_some_iff.mp found'
  -- a row that is `RUNNING` after the statement is a row that it did not touch
  have same : x.onBatch run = run := by
    cases x with
    | finish batchId status report now =>
      simp only [Stmt.onBatch] at running ⊢
      split at running
      · exact absurd running none
      next other => rw [if_neg other]
    | sweep before now =>
      simp only [Stmt.onBatch] at running ⊢
      split at running
      · cases running
      next fresh => rw [if_neg fresh]
    | insertBatch => exact none.elim
    | _ => rfl
  exact ⟨run, found, same ▸ running⟩

theorem Worker.Step.startsNone {w : Worker σ} {phase : WorkerPhase σ}
    (step : w.Step cfg v m phase st) {x : Stmt σ} (effect : st = some x) : x.StartsNone := by
  rcases step.stmt_cases effect with ⟨_, _, _, _, rfl⟩ | ⟨-, due⟩ | ⟨-, rfl⟩
  · trivial
  · -- the two UPDATEs of `batch_run` complete the batch or fail it
    obtain ⟨batchId, phase⟩ := w
    cases phase with
    | committing | completing | failing =>
      cases due
      first | trivial | simp [Stmt.StartsNone]
    | settling work todo willRetry handler =>
      cases todo with
      | nil => cases due
      | cons row todo =>
        cases due
        rcases settleStmt_cases cfg willRetry row v.now with ⟨_, eq⟩ | ⟨_, eq⟩ <;> rw [eq] <;> trivial
    | _ => cases due
  · trivial

theorem running_after (none : ∀ x, st = some x → x.StartsNone) {id : Uuid}
    (h : Running (db.after st) id) : Running db id := by
  cases st with
  | none => exact h
  | some x => exact Stmt.running_exec (none x rfl) h

/-! ### The starter -/

/-- The starter has seen that no batch is `RUNNING`, and has not committed. -/
def Starter.Claims (b : Starter) : Prop :=
  (∃ start, b.phase = .inserting start) ∨
    ∃ id start, b.phase = .committing id true (some (Starter.batchRow id start))

/-- What a starter carries to its commit: the row it inserts, or none. -/
def Starter.Consistent (b : Starter) : Prop :=
  ∀ id started row, b.phase = .committing id started row →
    (started = true ∧ ∃ start, row = some (Starter.batchRow id start)) ∨ started = false ∧ row = none

theorem Starter.Claims.lock {b : Starter} (h : b.Claims) : b.lock cfg = some cfg.startLock := by
  rcases h with ⟨start, here⟩ | ⟨id, start, here⟩ <;> simp [Starter.lock, here]

/-- After a sweep or its requeue a starter is outside the transaction. -/
theorem Starter.swept_cases (b : Starter) : b.swept = .opening ∨ b.swept = .returned none := by
  unfold Starter.swept
  split
  · exact .inl rfl
  · exact .inr rfl

theorem Starter.swept_claims_nothing (b : Starter) : ¬(b.enter b.swept).Claims := by
  rcases b.swept_cases with eq | eq <;> rw [eq] <;>
    rintro (⟨start, inside⟩ | ⟨id, start, inside⟩) <;> cases inside

theorem Starter.Step.claims {b : Starter} {phase : StarterPhase} (step : b.Step cfg v m phase st)
    (h : (b.enter phase).Claims) :
    st = none ∧ (b.Claims ∨ ∀ row ∈ v.db.batches.rows, row.status ≠ .running) := by
  -- a step claims by seeing no batch, or goes on with the claim it had
  cases step with
  | vacant start here none => exact ⟨rfl, .inr none⟩
  | inserted id start here absent => exact ⟨rfl, .inl (.inl ⟨start, here⟩)⟩
  | swept here =>
    split at h
    · exact absurd h b.swept_claims_nothing
    · rcases h with ⟨start, inside⟩ | ⟨id, start, inside⟩ <;> cases inside
  | requeued ids here => exact absurd h b.swept_claims_nothing
  | occupied start row here running there =>
    rcases h with ⟨start, inside⟩ | ⟨id, start, inside⟩ <;> cases inside
  | _ => rcases h with ⟨start, inside⟩ | ⟨id, start, inside⟩ <;> cases inside

theorem Starter.Step.consistent {b : Starter} {phase : StarterPhase}
    (step : b.Step cfg v m phase st) : (b.enter phase).Consistent := by
  intro id started row inside
  cases step with
  | inserted id' start here absent =>
    cases inside
    exact .inl ⟨rfl, start, rfl⟩
  | occupied start row' here running there =>
    cases inside
    exact .inr ⟨rfl, rfl⟩
  | swept here =>
    simp only [Starter.enter] at inside
    split at inside
    · rcases b.swept_cases with eq | eq <;> rw [eq] at inside <;> cases inside
    · cases inside
  | requeued ids here =>
    rcases b.swept_cases with eq | eq <;> simp only [Starter.enter, eq] at inside <;> cases inside
  | _ => cases inside

/-- What takes effect in a starter's step makes no batch `RUNNING`, or it is the INSERT of one
that has seen none. -/
theorem Starter.Step.starts {b : Starter} {phase : StarterPhase} (step : b.Step cfg v m phase st)
    (consistent : b.Consistent) {x : Stmt σ} (effect : st = some x) :
    x.StartsNone ∨ b.Claims ∧ ∃ id start, x = .insertBatch (Starter.batchRow id start) := by
  rcases step.stmt_cases effect with ⟨rfl, -⟩ | ⟨ids, rfl, -⟩ | ⟨row, rfl, id, started, here⟩
  · exact .inl trivial
  · exact .inl trivial
  · rcases consistent id started _ here with ⟨rfl, start, same⟩ | ⟨-, none⟩
    · cases same
      exact .inr ⟨.inr ⟨id, start, here⟩, id, start, rfl⟩
    · cases none

/-! ### The invariant -/

/-- At most one batch is `RUNNING`, and none while a starter that has seen none is on its way to
its commit. -/
structure State.Exclusive (cfg : Config σ) (s : State σ) : Prop where
  locks : Pool.Exclusive (Call.lock cfg) s.calls
  fresh : s.FreshBatches
  one : OneRunning s.db
  vacant : ∀ (i : ℕ) (b : Starter), s.calls[i]? = some (.starter b) → b.Claims →
    ∀ id, ¬Running s.db id
  consistent : ∀ (i : ℕ) (b : Starter), s.calls[i]? = some (.starter b) → b.Consistent

theorem running_insertBatch {id other : Uuid} {start : Time} :
    Running ((Stmt.insertBatch (Starter.batchRow id start)).exec db) other ↔
      other = id ∨ Running db other := by
  by_cases mine : other = id
  · subst mine
    simp [Running, Starter.batchRow]
  · simp [Running, Starter.batchRow, mine]

/-- A step of a call that makes no batch `RUNNING` and claims nothing anew. -/
theorem State.Exclusive.quiet {s : State σ} (h : s.Exclusive cfg) {i : ℕ} {c : Call σ}
    (locks : Pool.Exclusive (Call.lock cfg) (s.calls.set i c))
    (fresh : State.FreshBatches { s with db := s.db.after st, calls := s.calls.set i c })
    (none : ∀ x, st = some x → x.StartsNone)
    (mine : ∀ b, c = .starter b → b.Consistent ∧ (b.Claims → ∀ id, ¬Running s.db id)) :
    State.Exclusive cfg { s with db := s.db.after st, calls := s.calls.set i c } where
  locks := locks
  fresh := fresh
  one a b ha hb := h.one a b (running_after none ha) (running_after none hb)
  vacant j b hj claims id running := by
    have before := running_after none running
    rcases Pool.getElem?_set_cases hj with ⟨-, same⟩ | ⟨-, old⟩
    · exact (mine b same.symm).2 claims id before
    · exact h.vacant j b old claims id before
  consistent j b hj := by
    rcases Pool.getElem?_set_cases hj with ⟨-, same⟩ | ⟨-, old⟩
    · exact (mine b same.symm).1
    · exact h.consistent j b old

theorem State.Exclusive.step {s s' : State σ} {a : Action σ} (h : s.Exclusive cfg)
    (step : s.step cfg a = some s') : s'.Exclusive cfg := by
  have locks := State.locks_step h.locks step
  have fresh := h.fresh.step h.locks step
  cases State.stepped step with
  | tick => exact ⟨locks, fresh, h.one, h.vacant, h.consistent⟩
  | request r =>
    -- a new starter has yet to sweep, and claims nothing
    have old : ∀ (j : ℕ) (b : Starter), (s.calls ++ [r.call])[j]? = some (.starter b) →
        s.calls[j]? = some (.starter b) ∨ b.phase = .sweeping := by
      intro j b hj
      rcases Pool.getElem?_append_cases hj with ⟨-, same⟩ | hj
      · cases r <;> cases same <;> exact .inr rfl
      · exact .inl hj
    refine ⟨locks, fresh, h.one, fun j b hj claims => ?_, fun j b hj => ?_⟩
    · rcases old j b hj with hj | new
      · exact h.vacant j b hj claims
      · rcases claims with ⟨start, here⟩ | ⟨id, start, here⟩ <;> cases new.symm.trans here
    · rcases old j b hj with hj | new
      · exact h.consistent j b hj
      · intro id started row here
        cases new.symm.trans here
  | gate i m g phase st here gs =>
    refine h.quiet locks fresh (fun x effect => ?_) (by rintro b ⟨⟩)
    obtain none | ⟨row, put⟩ := gs.puts
    · cases none.symm.trans effect
    · cases put.symm.trans effect
      trivial
  | worker i m w phase st here ws =>
    exact h.quiet locks fresh (fun x effect => ws.startsNone effect) (by rintro b ⟨⟩)
  | starter i m b phase st here bs =>
    have consistent := h.consistent i b here
    by_cases quiet : ∀ x, st = some x → x.StartsNone
    · refine h.quiet locks fresh quiet ?_
      rintro _ ⟨⟩
      refine ⟨bs.consistent, fun claims => ?_⟩
      obtain ⟨-, old | none⟩ := bs.claims claims
      · exact h.vacant i b here old
      · rintro id ⟨run, found, running⟩
        exact none run (Table.mem_of_find? found) running
    · -- the commit of the INSERT: none was `RUNNING`, and no other starter holds the lock
      obtain ⟨x, rfl, starts⟩ : ∃ x, st = some x ∧ ¬x.StartsNone := by simpa using quiet
      obtain ⟨claims, id, start, rfl⟩ := (bs.starts consistent rfl).resolve_left starts
      have vacant := h.vacant i b here claims
      have running : ∀ other, Running ((Stmt.insertBatch (Starter.batchRow id start)).exec s.db) other →
          other = id :=
        fun other there => (running_insertBatch.mp there).resolve_right (vacant other)
      refine ⟨locks, fresh, fun a c ha hc => (running a ha).trans (running c hc).symm, ?_, ?_⟩
      · intro j b' hj claims'
        rcases Pool.getElem?_set_cases hj with ⟨-, same⟩ | ⟨other, old⟩
        · -- the step has written, so it no longer claims
          cases same
          cases (bs.claims claims').1
        · exact absurd (h.locks j i _ _ cfg.startLock old here claims'.lock claims.lock) other
      · intro j b' hj
        rcases Pool.getElem?_set_cases hj with ⟨-, same⟩ | ⟨-, old⟩
        · cases same
          exact bs.consistent
        · exact h.consistent j b' old

theorem State.exclusive {s : State σ}
    (reachable : Runs.Reachable State.StartsFrom (State.step cfg) Runs.Anything s) :
    s.Exclusive cfg := by
  refine reachable.invariant (fun s init => ?_) fun s a s' _ h step _ => h.step step
  obtain ⟨none, one⟩ := init
  have absent : ∀ (i : ℕ) (c : Call σ), s.calls[i]? ≠ some c := by simp [none]
  exact ⟨none ▸ Pool.Exclusive.nil, fun i b row hi => absurd hi (absent i _), one,
    fun i b hi => absurd hi (absent i _), fun i b hi => absurd hi (absent i _)⟩

/-! ### What an answer goes back to -/

/-- The call at a place has taken the run from `s₀` to `s₁` by a step of its own, and the run has
gone on from there. -/
def State.Past (cfg : Config σ) (i : ℕ) (s₀ s₁ s : State σ) : Prop :=
  Runs.Reachable State.StartsFrom (State.step cfg) Runs.Anything s₀ ∧
    (∃ m, s₀.step cfg (.act i m) = some s₁) ∧
    Runs.Reachable (fun u => u = s₁) (State.step cfg) Runs.Anything s

/-- The call has committed a batch with a new id, the only one `RUNNING` at its commit. -/
def State.Created (cfg : Config σ) (s : State σ) (i : ℕ) (id : Uuid) : Prop :=
  ∃ s₀ s₁, State.Past cfg i s₀ s₁ s ∧ s₀.db.batches.find? id = none ∧
    ∀ other, Running s₁.db other ↔ other = id

/-- The call has read the table under the lock while the batch was `RUNNING`. -/
def State.FoundRunning (cfg : Config σ) (s : State σ) (i : ℕ) (id : Uuid) : Prop :=
  ∃ s₀ s₁, State.Past cfg i s₀ s₁ s ∧
    (∃ b start, s₀.calls[i]? = some (.starter b) ∧ b.phase = .reading start) ∧
    cfg.startLock ∉ (s₀.view cfg i).locked ∧ Running s₀.db id

theorem State.Past.next {i : ℕ} {s₀ s₁ s s' : State σ} {a : Action σ} (h : State.Past cfg i s₀ s₁ s)
    (step : s.step cfg a = some s') : State.Past cfg i s₀ s₁ s' :=
  ⟨h.1, h.2.1, .next h.2.2 step trivial⟩

theorem State.Created.next {s s' : State σ} {a : Action σ} {i : ℕ} {id : Uuid}
    (h : s.Created cfg i id) (step : s.step cfg a = some s') : s'.Created cfg i id := by
  obtain ⟨s₀, s₁, past, rest⟩ := h
  exact ⟨s₀, s₁, past.next step, rest⟩

theorem State.FoundRunning.next {s s' : State σ} {a : Action σ} {i : ℕ} {id : Uuid}
    (h : s.FoundRunning cfg i id) (step : s.step cfg a = some s') : s'.FoundRunning cfg i id := by
  obtain ⟨s₀, s₁, past, rest⟩ := h
  exact ⟨s₀, s₁, past.next step, rest⟩

theorem Starter.Step.returns {b : Starter} {phase : StarterPhase} (step : b.Step cfg v m phase st)
    {id : Uuid} {started : Bool} (answered : phase = .returned (some (id, started))) :
    ∃ row, b.phase = .committing id started row ∧ st = row.map .insertBatch := by
  cases step with
  | committed batchId started' row here =>
    cases answered
    exact ⟨row, here, rfl⟩
  | swept here =>
    split at answered
    · rcases b.swept_cases with eq | eq <;> rw [eq] at answered <;> cases answered
    · cases answered
  | requeued ids here =>
    rcases b.swept_cases with eq | eq <;> rw [eq] at answered <;> cases answered
  | _ => cases answered

theorem Starter.Step.reads {b : Starter} {phase : StarterPhase} (step : b.Step cfg v m phase st)
    {id : Uuid} {row : Option BatchRow} (inside : phase = .committing id false row) :
    (∃ start, b.phase = .reading start) ∧ Running v.db id := by
  cases step with
  | occupied start run here running there =>
    cases inside
    exact ⟨⟨start, here⟩, run, Table.find?_of_mem there, running⟩
  | swept here =>
    split at inside
    · rcases b.swept_cases with eq | eq <;> rw [eq] at inside <;> cases inside
    · cases inside
  | requeued ids here =>
    rcases b.swept_cases with eq | eq <;> rw [eq] at inside <;> cases inside
  | _ => cases inside

/-- Every answer of `start_batch`, given or about to be given, goes back to its step. -/
def State.Answered (cfg : Config σ) (s : State σ) : Prop :=
  ∀ (i : ℕ) (b : Starter), s.calls[i]? = some (.starter b) → ∀ id,
    (∀ row, b.phase = .committing id false row → s.FoundRunning cfg i id) ∧
    (b.phase = .returned (some (id, false)) → s.FoundRunning cfg i id) ∧
    (b.phase = .returned (some (id, true)) → s.Created cfg i id)

theorem State.answered {s : State σ}
    (reachable : Runs.Reachable State.StartsFrom (State.step cfg) Runs.Anything s) :
    s.Answered cfg := by
  refine reachable.invariant (fun s init i b hi => by simp [init.1] at hi) ?_
  intro s a s' hr h step _
  have exclusive := State.exclusive hr
  -- a call that does not step keeps what its answer goes back to
  have keeps : ∀ (j : ℕ) (b : Starter), s.calls[j]? = some (.starter b) → ∀ id,
      (∀ row, b.phase = .committing id false row → s'.FoundRunning cfg j id) ∧
      (b.phase = .returned (some (id, false)) → s'.FoundRunning cfg j id) ∧
      (b.phase = .returned (some (id, true)) → s'.Created cfg j id) := by
    intro j b hj id
    obtain ⟨reading, found, created⟩ := h j b hj id
    exact ⟨fun row here => (reading row here).next step, fun here => (found here).next step,
      fun here => (created here).next step⟩
  intro j b' hj id
  cases State.stepped step with
  | tick => exact keeps j b' hj id
  | request r =>
    rcases Pool.getElem?_append_cases hj with ⟨-, same⟩ | old
    · cases r <;> cases same <;> exact ⟨by rintro row ⟨⟩, by rintro ⟨⟩, by rintro ⟨⟩⟩
    · exact keeps j b' old id
  | gate i m g phase st here gs =>
    rcases Pool.getElem?_set_cases hj with ⟨-, same⟩ | ⟨-, old⟩
    · cases same
    · exact keeps j b' old id
  | worker i m w phase st here ws =>
    rcases Pool.getElem?_set_cases hj with ⟨-, same⟩ | ⟨-, old⟩
    · cases same
    · exact keeps j b' old id
  | starter i m b phase st here bs =>
    rcases Pool.getElem?_set_cases hj with ⟨rfl, same⟩ | ⟨-, old⟩
    · cases same
      have past : State.Past cfg j s _ _ := ⟨hr, ⟨m, step⟩, .start rfl⟩
      refine ⟨fun row inside => ?_, fun answered => ?_, fun answered => ?_⟩
      · -- it has just read the batch, with the lock in its own hands
        obtain ⟨⟨start, reading⟩, running⟩ := bs.reads inside
        refine ⟨s, _, past, ⟨b, start, here, reading⟩, ?_, running⟩
        exact exclusive.locks.kept here (by simp [Call.lock, Starter.lock, reading])
      · -- the commit without an INSERT: the answer was settled by the read
        obtain ⟨row, committing, -⟩ := bs.returns answered
        exact ((h j b here id).1 row committing).next step
      · -- the commit of its INSERT: nothing else is `RUNNING`
        obtain ⟨row, committing, effect⟩ := bs.returns answered
        obtain ⟨-, start, rfl⟩ | ⟨wrong, -⟩ := exclusive.consistent j b here _ _ _ committing
        · refine ⟨s, _, past, ?_, fun other => ?_⟩
          · exact exclusive.fresh j b (Starter.batchRow id start) here
              (by simp [Starter.written, committing])
          · have vacant := exclusive.vacant j b here (.inr ⟨id, start, committing⟩)
            subst effect
            exact running_insertBatch.trans (or_iff_left (vacant other))
        · cases wrong
    · exact keeps j b' old id

/-- From any tables with at most one `RUNNING` batch, at most one is `RUNNING` at any time; a
call answered `started` has committed a new batch that was the only one `RUNNING`; a call
answered otherwise gives a batch that was `RUNNING` when it read the table under the lock. -/
theorem starts_exclusive {s : State σ}
    (reachable : Runs.Reachable State.StartsFrom (State.step cfg) Runs.Anything s) :
    OneRunning s.db ∧
    ∀ (i : ℕ) (b : Starter), s.calls[i]? = some (.starter b) → ∀ id,
      (b.phase = .returned (some (id, true)) → s.Created cfg i id) ∧
      (b.phase = .returned (some (id, false)) → s.FoundRunning cfg i id) := by
  constructor
  · exact (State.exclusive reachable).one
  · intro i b here id
    obtain ⟨-, found, created⟩ := State.answered reachable i b here id
    exact ⟨created, found⟩

/-- Two calls of `start_batch`: the first starts the batch 77, the second finds it. -/
def startsTwice : List (Action ℕ) :=
  .request .startBatch :: startsBatch 0 77 ++
  [.request .startBatch, .act 1 (.reply .ok), .act 1 (.reply .ok), .act 1 (.reply .ok),
    .act 1 (.reply .ok), .act 1 (.reply .ok)]

theorem starts_exclusive_twice : ∃ s : State ℕ,
    Runs.perform (State.step defaults) .start startsTwice = some s ∧
    OneRunning s.db ∧ s.Created defaults 0 77 ∧ s.FoundRunning defaults 1 77 := by
  have run : Runs.perform (State.step defaults) .start startsTwice = some _ := rfl
  have init : State.StartsFrom (State.start : State ℕ) := by
    refine ⟨rfl, ?_⟩
    rintro a b ⟨run, found, -⟩
    cases found
  obtain ⟨one, answers⟩ := starts_exclusive (Runs.Reachable.perform (.start init) run)
  exact ⟨_, run, one, (answers 0 _ rfl 77).1 rfl, (answers 1 _ rfl 77).2 rfl⟩

end DostReview.Review
