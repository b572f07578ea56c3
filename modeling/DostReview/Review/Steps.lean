import DostReview.Review.System

/-!
# What one step of a call can do

The step functions read backwards: one constructor for each step of the source, with what
it needed, where it leads and the statement that takes effect.
-/
namespace DostReview.Review

variable {σ : Type} {cfg : Config σ} {v : View σ} {m : Move σ} {st : Option (Stmt σ)}

theorem Reply.eq_failed {r : Reply} (answered : r ≠ .ok) (lost : ∀ e, r ≠ .lost e) :
    ∃ e, r = .failed e := by
  cases r with
  | ok => exact absurd rfl answered
  | failed e => exact ⟨e, rfl⟩
  | lost e => exact absurd rfl (lost e)

/-! ### The gate -/

inductive Gate.Step (cfg : Config σ) (v : View σ) (g : Gate) :
    Move σ → GatePhase → Option (Stmt σ) → Prop
  | crashed : g.ended = false → Step cfg v g .crash .gone none
  | raised (r : Reply) : r ≠ .ok →
      (∀ start result row, g.phase = .committing start result row → ∃ e, r = .failed e) →
      Step cfg v g (.reply r) .gone none
  | selfReview (r : Reply) : g.phase = .entry → g.SelfReview → g.review.reviewId ∉ v.written →
      Step cfg v g (.reply r) (.returned (.rejected .selfReview))
        ((persistRejected v.db g.review g.eventId .selfReview v.now).bind fun row =>
          r.effect (.putReview row))
  | validated (answer : OnboardAnswer) : g.phase = .entry → ¬ g.SelfReview →
      Step cfg v g (.onboard answer) (.beginning
        (validateProfiles answer g.review.targetProfileId g.review.raterProfileId)) none
  | begun (verdict : Option GateCode) : g.phase = .beginning verdict →
      Step cfg v g (.reply .ok) (.locking verdict v.now) none
  | locked (verdict : Option GateCode) (start : Time) : g.phase = .locking verdict start →
      g.pairLock cfg ∉ v.locked → Step cfg v g (.reply .ok) (.checking verdict start) none
  | checked (verdict : Option GateCode) (start : Time) : g.phase = .checking verdict start →
      Step cfg v g (.reply .ok) (checked v.db g.review verdict start) none
  | timed (start : Time) : g.phase = .timing start →
      Step cfg v g .clock (.counting start (v.now - day)) none
  | counted (start since : Time) : g.phase = .counting start since →
      Step cfg v g (.reply .ok) (counted cfg v.db g.review start since) none
  | persisted (start : Time) (code : GateCode) : g.phase = .persisting start code →
      g.review.reviewId ∉ v.written →
      Step cfg v g (.reply .ok) (.committing start (.rejected code)
        (persistRejected v.db g.review g.eventId code start)) none
  | unpersisted (start : Time) (code : GateCode) (r : Reply) : g.phase = .persisting start code →
      Step cfg v g (.reply r) (.committing start (.rejected code) none) none
  | inserted (start : Time) : g.phase = .inserting start → g.review.reviewId ∉ v.written →
      Step cfg v g (.reply .ok) (inserted v.db g.review g.eventId start) none
  | committed (start : Time) (result : GateResult) (row : Option ReviewRow) :
      g.phase = .committing start result row →
      Step cfg v g (.reply .ok) (.returned result) (row.map .putReview)
  | lost (start : Time) (result : GateResult) (row : Option ReviewRow) (e : String) :
      g.phase = .committing start result row →
      Step cfg v g (.reply (.lost e)) .gone (row.map .putReview)

theorem Gate.step_of_advance {g g' : Gate} (h : g.advance cfg v m = some (g', st)) :
    ∃ phase, g' = g.enter phase ∧ g.Step cfg v m phase st := by
  cases m with
  | crash =>
    simp only [advance] at h
    split at h
    · cases h
    next live => cases h; exact ⟨_, rfl, .crashed (by simpa using live)⟩
  | clock =>
    simp only [advance] at h
    split at h
    next start here => cases h; exact ⟨_, rfl, .timed start here⟩
    next => cases h
  | onboard answer =>
    simp only [advance] at h
    split at h
    next here =>
      split at h
      · cases h
      next foreign => cases h; exact ⟨_, rfl, .validated answer here foreign⟩
    next => cases h
  | reply r =>
    simp only [advance] at h
    split at h
    next here =>
      split at h
      next ready => cases h; exact ⟨_, rfl, .selfReview _ here ready.1 ready.2⟩
      · cases h
    next verdict here => cases h; exact ⟨_, rfl, .begun verdict here⟩
    next verdict start here =>
      split at h
      · cases h
      next free => cases h; exact ⟨_, rfl, .locked verdict start here free⟩
    next verdict start here => cases h; exact ⟨_, rfl, .checked verdict start here⟩
    next start since here => cases h; exact ⟨_, rfl, .counted start since here⟩
    next start code here =>
      split at h
      · cases h
      next free => cases h; exact ⟨_, rfl, .persisted start code here free⟩
    -- a failed audit row is logged, and the transaction goes on
    next here _ => cases h; exact ⟨_, rfl, .unpersisted _ _ _ here⟩
    next start here =>
      split at h
      · cases h
      next free => cases h; exact ⟨_, rfl, .inserted start here free⟩
    next start result row here => cases h; exact ⟨_, rfl, .committed start result row here⟩
    next start result row e here => cases h; exact ⟨_, rfl, .lost start result row e here⟩
    next e here => cases h; exact ⟨_, rfl, .raised _ (by simp) fun _ _ _ _ => ⟨_, rfl⟩⟩
    next => cases h
    next => cases h
    next => cases h
    -- any other statement that fails raises out of the call
    next =>
      cases h
      refine ⟨_, rfl, .raised _ ?_ ?_⟩
      · rintro rfl
        cases phase : g.phase <;> simp_all
      · intro start result row here
        exact Reply.eq_failed (by simp_all) (by simp_all)
  | claim | engine | uuid => cases h

/-- What takes effect in a step of the gate: the audit row of a self-review, or the row of the
transaction at its commit. -/
theorem Gate.Step.stmt_cases {g : Gate} {phase : GatePhase} (step : g.Step cfg v m phase st)
    {x : Stmt σ} (effect : st = some x) :
    ∃ row, x = .putReview row ∧
      (g.review.reviewId ∉ v.written ∧
          persistRejected v.db g.review g.eventId .selfReview v.now = some row ∨
        ∃ start result, g.phase = .committing start result (some row)) := by
  cases step with
  | selfReview r here selfish free =>
    obtain ⟨row, written, eq⟩ := Option.bind_eq_some_iff.mp effect
    exact ⟨row, (Reply.eq_of_effect eq).symm, .inl ⟨free, written⟩⟩
  | committed start result row here | lost start result row e here =>
    obtain ⟨row, rfl, eq⟩ := Option.map_eq_some_iff.mp effect
    exact ⟨row, eq.symm, .inr ⟨start, result, here⟩⟩
  | _ => cases effect

theorem Gate.checked_cases (db : Db σ) (review : DostReview) (verdict : Option GateCode)
    (start : Time) :
    checked db review verdict start = .committing start (.rejected .duplicate) none ∨
      (∃ code, checked db review verdict start = .persisting start code) ∨
      checked db review verdict start = .timing start := by
  unfold checked
  split
  · exact .inl rfl
  · cases verdict with
    | none => exact .inr (.inr rfl)
    | some code => exact .inr (.inl ⟨code, rfl⟩)

theorem Gate.counted_cases (cfg : Config σ) (db : Db σ) (review : DostReview) (start since : Time) :
    counted cfg db review start since = .persisting start .rateLimited ∨
      db.reviews.count (countsFrom review.raterProfileId review.targetProfileId since) <
          cfg.rateLimitPerRaterPerTarget ∧
        counted cfg db review start since = .inserting start := by
  unfold counted
  split
  · exact .inl rfl
  next room => exact .inr ⟨not_le.mp room, rfl⟩

theorem Gate.inserted_cases (db : Db σ) (review : DostReview) (eventId : Option Uuid) (start : Time) :
    (∃ row, insertGated db review eventId start = some row ∧
        inserted db review eventId start = .committing start .passed (some row)) ∨
      inserted db review eventId start = .committing start (.rejected .duplicate) none := by
  unfold inserted
  split
  next row written => exact .inl ⟨row, written, rfl⟩
  next => exact .inr rfl

/-! ### The batch runner -/

/-- Where an exception while settling leads: out of `run_batch` from within the handler,
into the handler otherwise. -/
def unsettled (work : Work) (handler : Bool) (e : String) : WorkerPhase σ :=
  if handler then .failing e else work.handle

inductive Worker.Step (cfg : Config σ) (v : View σ) (w : Worker σ) :
    Move σ → WorkerPhase σ → Option (Stmt σ) → Prop
  | crashed : w.ended = false → Step cfg v w .crash .gone none
  | claimed (skipped ids : List Uuid) : w.phase = .ready →
      Picks v.db cfg.maxReviewsPerBatch skipped ids →
      Step cfg v w (.claim skipped ids .ok) (claimed (claimedRows v.db w.batchId ids))
        (some (.claim w.batchId ids))
  | unclaimed (skipped ids : List Uuid) (r : Reply) (e : String) : w.phase = .ready →
      Picks v.db cfg.maxReviewsPerBatch skipped ids →
      Step cfg v w (.claim skipped ids r) (.failing e) (r.effect (.claim w.batchId ids))
  | unloaded (e : String) : w.phase = .ready → Step cfg v w (.engine (.raised e)) (.failing e) none
  | read (work : Work) : w.phase = .loading work →
      Step cfg v w (.reply .ok)
        (.processing work ((v.db.reputations.find? work.profileId).map (·.state))) none
  | unread (work : Work) (r : Reply) : w.phase = .loading work →
      Step cfg v w (.reply r) work.handle none
  | output (work : Work) (stored : Option σ) (out : EngineOutput σ) :
      w.phase = .processing work stored →
      Step cfg v w (.engine (.output out)) (.committing work stored out) none
  | engineError (work : Work) (stored : Option σ) (willRetry : Option Bool) :
      w.phase = .processing work stored →
      Step cfg v w (.engine (.error willRetry))
        (settle work work.rows (willRetry.getD true) false) none
  | raised (work : Work) (stored : Option σ) (e : String) : w.phase = .processing work stored →
      Step cfg v w (.engine (.raised e)) work.handle none
  | committed (work : Work) (stored : Option σ) (out : EngineOutput σ) :
      w.phase = .committing work stored out →
      Step cfg v w (.reply .ok) work.committed (some (work.commit out v.now))
  | uncommitted (work : Work) (stored : Option σ) (out : EngineOutput σ) (r : Reply) :
      w.phase = .committing work stored out → r ≠ .ok →
      Step cfg v w (.reply r) work.handle (r.effect (work.commit out v.now))
  | settled (work : Work) (row : ReviewRow) (todo : List ReviewRow) (willRetry handler : Bool) :
      w.phase = .settling work (row :: todo) willRetry handler →
      Step cfg v w (.reply .ok)
        (settle { work with stats := settleStats cfg willRetry row work.stats } todo willRetry handler)
        (some (settleStmt cfg willRetry row v.now))
  | unsettled (work : Work) (row : ReviewRow) (todo : List ReviewRow) (willRetry handler : Bool)
      (r : Reply) (e : String) : w.phase = .settling work (row :: todo) willRetry handler → r ≠ .ok →
      Step cfg v w (.reply r) (unsettled work handler e)
        (r.effect (settleStmt cfg willRetry row v.now))
  | completed (stats : Stats) : w.phase = .completing stats →
      Step cfg v w (.reply .ok) (.returned .completed)
        (some (.finish w.batchId .completed (.stats stats) v.now))
  | uncompleted (stats : Stats) (r : Reply) (e : String) : w.phase = .completing stats → r ≠ .ok →
      Step cfg v w (.reply r) (.failing e)
        (r.effect (.finish w.batchId .completed (.stats stats) v.now))
  | marked (e : String) (r : Reply) : w.phase = .failing e →
      Step cfg v w (.reply r) .requeueing (r.effect (.finish w.batchId .failed (.error e) v.now))
  | requeued (r : Reply) : w.phase = .requeueing →
      Step cfg v w (.reply r) (.returned .failed) (r.effect (.requeue [w.batchId]))

theorem Worker.step_of_advance {w w' : Worker σ} (h : w.advance cfg v m = some (w', st)) :
    ∃ phase, w' = w.enter phase ∧ w.Step cfg v m phase st := by
  cases m with
  | crash =>
    simp only [advance] at h
    split at h
    · cases h
    next live => cases h; exact ⟨_, rfl, .crashed (by simpa using live)⟩
  | claim skipped ids r =>
    simp only [advance] at h
    split at h
    next here =>
      split at h
      next picks =>
        -- a claim that raises fails the batch, also where it has taken effect
        cases r <;> cases h
        · exact ⟨_, rfl, .claimed skipped ids here picks⟩
        · exact ⟨_, rfl, .unclaimed skipped ids (.failed _) _ here picks⟩
        · exact ⟨_, rfl, .unclaimed skipped ids (.lost _) _ here picks⟩
      · cases h
    next => cases h
  | engine outcome =>
    simp only [advance] at h
    split at h
    next e here => cases h; exact ⟨_, rfl, .unloaded e here⟩
    next work stored out here => cases h; exact ⟨_, rfl, .output work stored out here⟩
    next work stored willRetry here => cases h; exact ⟨_, rfl, .engineError work stored willRetry here⟩
    next work stored e here => cases h; exact ⟨_, rfl, .raised work stored e here⟩
    next => cases h
  | reply r =>
    simp only [advance] at h
    split at h
    next work here =>
      cases r <;> cases h
      · exact ⟨_, rfl, .read work here⟩
      · exact ⟨_, rfl, .unread work (.failed _) here⟩
      · exact ⟨_, rfl, .unread work (.lost _) here⟩
    next work stored out here =>
      split at h
      · cases h
      cases r <;> cases h
      · exact ⟨_, rfl, .committed work stored out here⟩
      · exact ⟨_, rfl, .uncommitted work stored out (.failed _) here (by simp)⟩
      · exact ⟨_, rfl, .uncommitted work stored out (.lost _) here (by simp)⟩
    next work row todo willRetry handler here =>
      split at h
      · cases h
      cases r <;> cases h
      · exact ⟨_, rfl, .settled work row todo willRetry handler here⟩
      · exact ⟨_, rfl, .unsettled work row todo willRetry handler (.failed _) _ here (by simp)⟩
      · exact ⟨_, rfl, .unsettled work row todo willRetry handler (.lost _) _ here (by simp)⟩
    next stats here =>
      cases r <;> cases h
      · exact ⟨_, rfl, .completed stats here⟩
      · exact ⟨_, rfl, .uncompleted stats (.failed _) _ here (by simp)⟩
      · exact ⟨_, rfl, .uncompleted stats (.lost _) _ here (by simp)⟩
    next e here => cases h; exact ⟨_, rfl, .marked e r here⟩
    next here => cases h; exact ⟨_, rfl, .requeued r here⟩
    next => cases h
  | clock | onboard | uuid => cases h

/-- Where the runner goes between two profiles: on to the next statement of its loop. -/
def WorkerPhase.Onward : WorkerPhase σ → Prop
  | .loading _ => True
  | .settling _ _ _ _ => True
  | .completing _ => True
  | _ => False

theorem onward_nextProfile (rest : List (Uuid × List ReviewRow)) (stats : Stats) :
    (nextProfile rest stats : WorkerPhase σ).Onward := by
  cases rest <;> trivial

theorem onward_settle (work : Work) (todo : List ReviewRow) (willRetry handler : Bool) :
    (settle work todo willRetry handler : WorkerPhase σ).Onward := by
  cases todo with
  | nil => exact onward_nextProfile _ _
  | cons => trivial

theorem Worker.live_of_onward (w : Worker σ) {phase : WorkerPhase σ} (onward : phase.Onward) :
    (w.enter phase).ended = false := by
  cases phase with
  | loading | settling | completing => rfl
  | _ => exact onward.elim

theorem settleStmt_cases (cfg : Config σ) (willRetry : Bool) (held : ReviewRow) (now : Time) :
    (∃ retryCount, settleStmt cfg willRetry held now = .deadLetter held.id retryCount now) ∨
      ∃ retryCount, settleStmt cfg willRetry held now = .giveBack held.id retryCount := by
  unfold settleStmt
  split
  · exact .inl ⟨_, rfl⟩
  · exact .inr ⟨_, rfl⟩

theorem settleStmt_ne {x : Stmt σ} (lettered : ∀ id retryCount now, x ≠ .deadLetter id retryCount now)
    (given : ∀ id retryCount, x ≠ .giveBack id retryCount) (cfg : Config σ) (willRetry : Bool)
    (held : ReviewRow) (now : Time) : settleStmt cfg willRetry held now ≠ x := by
  rcases settleStmt_cases cfg willRetry held now with ⟨_, eq⟩ | ⟨_, eq⟩
  · exact eq ▸ (lettered _ _ _).symm
  · exact eq ▸ (given _ _).symm

theorem onReview_settle_of_ne {willRetry : Bool} {held row : ReviewRow} {now : Time}
    (other : row.id ≠ held.id) : (settleStmt cfg willRetry held now).onReview row = row := by
  rcases settleStmt_cases cfg willRetry held now with ⟨_, eq⟩ | ⟨_, eq⟩ <;>
    simp [eq, Stmt.onReview, other]

theorem onReview_settle_self (cfg : Config σ) (willRetry : Bool) (now : Time) {held row : ReviewRow}
    (mine : row.id = held.id) :
    ((settleStmt cfg willRetry held now).onReview row).status = .failed ∨
      ((settleStmt cfg willRetry held now).onReview row).status = .gated := by
  rcases settleStmt_cases cfg willRetry held now with ⟨_, eq⟩ | ⟨_, eq⟩ <;>
    simp [eq, Stmt.onReview, mine]

/-- The UPDATE of the call in hand that selects its rows by id alone. -/
def Worker.due (cfg : Config σ) (now : Time) (w : Worker σ) : Option (Stmt σ) :=
  match w.phase with
  | .committing work _ out => some (work.commit out now)
  | .settling _ (row :: _) willRetry _ => some (settleStmt cfg willRetry row now)
  | .completing stats => some (.finish w.batchId .completed (.stats stats) now)
  | .failing e => some (.finish w.batchId .failed (.error e) now)
  | _ => none

theorem Worker.due_cases {w : Worker σ} {now : Time} {x : Stmt σ} (due : w.due cfg now = some x) :
    (∃ work stored out, w.phase = .committing work stored out ∧ x = work.commit out now) ∨
    (∃ work row todo willRetry handler, w.phase = .settling work (row :: todo) willRetry handler ∧
      x = settleStmt cfg willRetry row now) ∨
    ∃ status report, x = .finish w.batchId status report now := by
  -- four phases have an UPDATE by id in hand
  obtain ⟨batchId, phase⟩ := w
  cases phase with
  | committing work stored out => exact .inl ⟨work, stored, out, rfl, (Option.some.inj due).symm⟩
  | settling work todo willRetry handler =>
    cases todo with
    | nil => cases due
    | cons row todo =>
      exact .inr (.inl ⟨work, row, todo, willRetry, handler, rfl, (Option.some.inj due).symm⟩)
  | completing | failing => exact .inr (.inr ⟨_, _, (Option.some.inj due).symm⟩)
  | _ => cases due

/-- A condition on the worker whose answer lands in a step. -/
def WhereLands (P : Worker σ → Prop) (s : State σ) : Action σ → Prop
  | .act i m =>
    match s.calls[i]? with
    | some (.worker w) => m.Lands → P w
    | _ => True
  | _ => True

instance (P : Worker σ → Prop) [DecidablePred P] (s : State σ) :
    ∀ a : Action σ, Decidable (WhereLands P s a)
  | .tick _ => isTrue trivial
  | .request _ => isTrue trivial
  | .act i m =>
    match h : s.calls[i]? with
    | some (.worker w) => decidable_of_iff (m.Lands → P w) (by simp [WhereLands, h])
    | some (.gate _) => isTrue (by simp [WhereLands, h])
    | some (.starter _) => isTrue (by simp [WhereLands, h])
    | none => isTrue (by simp [WhereLands, h])

theorem whereLands_worker {P : Worker σ → Prop} {s : State σ} {i : ℕ} {w : Worker σ}
    (here : s.calls[i]? = some (.worker w)) : WhereLands P s (.act i m) ↔ (m.Lands → P w) := by
  simp [WhereLands, here]

theorem whereLands_gate {P : Worker σ → Prop} {s : State σ} {i : ℕ} {g : Gate}
    (here : s.calls[i]? = some (.gate g)) : WhereLands P s (.act i m) := by
  simp [WhereLands, here]

theorem whereLands_starter {P : Worker σ → Prop} {s : State σ} {i : ℕ} {b : Starter}
    (here : s.calls[i]? = some (.starter b)) : WhereLands P s (.act i m) := by
  simp [WhereLands, here]

/-- What takes effect in a step of a runner: the claim, the UPDATE due, or the requeue. -/
theorem Worker.Step.stmt_cases {w : Worker σ} {phase : WorkerPhase σ}
    (step : w.Step cfg v m phase st) {x : Stmt σ} (effect : st = some x) :
    (∃ skipped ids, w.phase = .ready ∧ Picks v.db cfg.maxReviewsPerBatch skipped ids ∧
      x = .claim w.batchId ids) ∨
    (m.Lands ∧ w.due cfg v.now = some x) ∨ w.phase = .requeueing ∧ x = .requeue [w.batchId] := by
  -- a statement with an effect was acknowledged, or its acknowledgement was lost
  have lands : ∀ {y : Stmt σ} {r : Reply}, r.effect y = some x → (Move.reply r : Move σ).Lands := by
    intro y r h
    cases r with
    | failed => cases h
    | ok | lost => trivial
  have due : ∀ {y : Stmt σ} {r : Reply}, w.due cfg v.now = some y → r.effect y = some x →
      (Move.reply r : Move σ).Lands ∧ w.due cfg v.now = some x :=
    fun is effect => ⟨lands effect, is.trans (congrArg some (Reply.eq_of_effect effect))⟩
  cases step with
  | claimed skipped ids here picks =>
    cases effect
    exact .inl ⟨skipped, ids, here, picks, rfl⟩
  | unclaimed skipped ids r e here picks =>
    exact .inl ⟨skipped, ids, here, picks, (Reply.eq_of_effect effect).symm⟩
  | committed work stored out here | settled work row todo willRetry handler here
  | completed stats here =>
    exact .inr (.inl ⟨trivial, by simpa [Worker.due, here] using effect⟩)
  | uncommitted work stored out r here | unsettled work row todo willRetry handler r e here
  | uncompleted stats r e here | marked e r here =>
    exact .inr (.inl (due (by simp [Worker.due, here]) effect))
  | requeued r here => exact .inr (.inr ⟨here, (Reply.eq_of_effect effect).symm⟩)
  | _ => cases effect

/-- The runner writes no review and no batch of its own, and sweeps none. -/
theorem Worker.Step.updates {w : Worker σ} {phase : WorkerPhase σ}
    (step : w.Step cfg v m phase st) {x : Stmt σ} (effect : st = some x) :
    (∀ row, x ≠ .putReview row) ∧ (∀ row, x ≠ .insertBatch row) ∧
      ∀ before now, x ≠ .sweep before now := by
  rcases step.stmt_cases effect with ⟨_, _, _, _, rfl⟩ | ⟨-, due⟩ | ⟨-, rfl⟩
  · simp
  · rcases Worker.due_cases due with ⟨work, _, out, -, rfl⟩ | ⟨_, row, _, willRetry, _, -, rfl⟩ |
      ⟨_, _, rfl⟩
    · simp [Work.commit]
    · exact ⟨fun _ => settleStmt_ne (by simp) (by simp) _ _ _ _,
        fun _ => settleStmt_ne (by simp) (by simp) _ _ _ _,
        fun _ _ => settleStmt_ne (by simp) (by simp) _ _ _ _⟩
    · simp
  · simp

/-- The UPDATE due is what takes effect when the answer lands. -/
theorem Worker.Step.due_lands {w : Worker σ} {phase : WorkerPhase σ}
    (step : w.Step cfg v m phase st) (lands : m.Lands) {x : Stmt σ} (due : w.due cfg v.now = some x) :
    st = some x := by
  have effect : ∀ {y : Stmt σ} {r : Reply}, (Move.reply r : Move σ).Lands → r.effect y = some y := by
    intro y r lands
    cases r with
    | failed => exact lands.elim
    | ok | lost => rfl
  cases step with
  | committed work stored out here | settled work row todo willRetry handler here
  | completed stats here => simpa [Worker.due, here] using due
  | uncommitted work stored out r here | unsettled work row todo willRetry handler r e here
  | uncompleted stats r e here | marked e r here =>
    simp only [Worker.due, here, Option.some.injEq] at due
    rw [effect lands, due]
  | read work here | unread work r here | requeued r here => simp [Worker.due, here] at due
  | _ => simp [Move.Lands] at lands

/-! ### The starter -/

inductive Starter.Step (cfg : Config σ) (v : View σ) (b : Starter) :
    Move σ → StarterPhase → Option (Stmt σ) → Prop
  | crashed : b.ended = false → Step cfg v b .crash .gone none
  | swept : b.phase = .sweeping →
      Step cfg v b (.reply .ok)
        (if sweptIds cfg v = [] then b.swept else .requeueing (sweptIds cfg v))
        (some (.sweep (staleBefore cfg v.now) v.now))
  | unswept (r : Reply) : r ≠ .ok → b.phase = .sweeping →
      Step cfg v b (.reply r) .gone (r.effect (.sweep (staleBefore cfg v.now) v.now))
  | requeued (ids : List Uuid) : b.phase = .requeueing ids →
      Step cfg v b (.reply .ok) b.swept (some (.requeue ids))
  | unrequeued (ids : List Uuid) (r : Reply) : r ≠ .ok → b.phase = .requeueing ids →
      Step cfg v b (.reply r) .gone (r.effect (.requeue ids))
  | opened : b.phase = .opening → Step cfg v b (.reply .ok) (.locking v.now) none
  | locked (start : Time) : b.phase = .locking start → cfg.startLock ∉ v.locked →
      Step cfg v b (.reply .ok) (.reading start) none
  | occupied (start : Time) (row : BatchRow) : b.phase = .reading start → row.status = .running →
      row ∈ v.db.batches.rows → Step cfg v b (.reply .ok) (.committing row.id false none) none
  | vacant (start : Time) : b.phase = .reading start →
      (∀ row ∈ v.db.batches.rows, row.status ≠ .running) →
      Step cfg v b (.reply .ok) (.inserting start) none
  | inserted (id : Uuid) (start : Time) : b.phase = .inserting start →
      v.db.batches.find? id = none →
      Step cfg v b (.uuid id .ok) (.committing id true (some (batchRow id start))) none
  | gaveUp (m : Move σ) : (∀ ids, b.phase ≠ .requeueing ids) → b.phase ≠ .sweeping →
      Step cfg v b m .gone none
  | committed (batchId : Uuid) (started : Bool) (row : Option BatchRow) :
      b.phase = .committing batchId started row →
      Step cfg v b (.reply .ok) (.returned (some (batchId, started))) (row.map .insertBatch)
  | uncommitted (batchId : Uuid) (started : Bool) (row : Option BatchRow) (r : Reply) :
      b.phase = .committing batchId started row →
      Step cfg v b (.reply r) .gone (row.bind fun row => r.effect (.insertBatch row))

theorem Starter.step_of_advance {b b' : Starter} (h : b.advance cfg v m = some (b', st)) :
    ∃ phase, b' = b.enter phase ∧ b.Step cfg v m phase st := by
  cases m with
  | crash =>
    simp only [advance] at h
    split at h
    · cases h
    next live => cases h; exact ⟨_, rfl, .crashed (by simpa using live)⟩
  | uuid id r =>
    simp only [advance] at h
    split at h
    next start here =>
      -- the INSERT fails on an id that is taken
      cases found : v.db.batches.find? id with
      | none => cases h; exact ⟨_, rfl, by rw [found]; exact .inserted id start here found⟩
      | some row =>
        cases h
        exact ⟨_, rfl, by rw [found]; exact .gaveUp _ (by simp [here]) (by simp [here])⟩
    next start here _ => cases h; exact ⟨_, rfl, .gaveUp _ (by simp [here]) (by simp [here])⟩
    next => cases h
  | reply r =>
    simp only [advance] at h
    split at h
    next here =>
      cases r <;> cases h
      · exact ⟨_, rfl, .swept here⟩
      · exact ⟨_, rfl, .unswept (.failed _) (by simp) here⟩
      · exact ⟨_, rfl, .unswept (.lost _) (by simp) here⟩
    next ids here =>
      cases r <;> cases h
      · exact ⟨_, rfl, .requeued ids here⟩
      · exact ⟨_, rfl, .unrequeued ids (.failed _) (by simp) here⟩
      · exact ⟨_, rfl, .unrequeued ids (.lost _) (by simp) here⟩
    next here =>
      cases r <;> cases h
      · exact ⟨_, rfl, .opened here⟩
      · exact ⟨_, rfl, .gaveUp _ (by simp [here]) (by simp [here])⟩
      · exact ⟨_, rfl, .gaveUp _ (by simp [here]) (by simp [here])⟩
    next start here =>
      split at h
      next ok =>
        subst ok
        split at h
        · cases h
        next free => cases h; exact ⟨_, rfl, .locked start here free⟩
      next => cases h; exact ⟨_, rfl, .gaveUp _ (by simp [here]) (by simp [here])⟩
    next start here =>
      cases h
      split
      next ok =>
        subst ok
        split
        next row found =>
          exact ⟨_, rfl, .occupied start row here (by simpa using List.find?_some found)
            (List.mem_of_find?_eq_some found)⟩
        next none => exact ⟨_, rfl, .vacant start here (by simpa using List.find?_eq_none.mp none)⟩
      next => exact ⟨_, rfl, .gaveUp _ (by simp [here]) (by simp [here])⟩
    next batchId started row here =>
      cases h
      cases r
      · have step : b.Step cfg v (.reply .ok) _ _ := .committed batchId started row here
        refine ⟨_, rfl, ?_⟩
        cases row <;> exact step
      · exact ⟨_, rfl, .uncommitted batchId started row (.failed _) here⟩
      · exact ⟨_, rfl, .uncommitted batchId started row (.lost _) here⟩
    next => cases h
  | clock | onboard | engine | claim => cases h

theorem Starter.Step.stmt_cases {b : Starter} {phase : StarterPhase}
    (step : b.Step cfg v m phase st) {x : Stmt σ} (effect : st = some x) :
    (x = .sweep (staleBefore cfg v.now) v.now ∧ b.phase = .sweeping) ∨
    (∃ ids, x = .requeue ids ∧ b.phase = .requeueing ids) ∨
    ∃ row, x = .insertBatch row ∧
      ∃ batchId started, b.phase = .committing batchId started (some row) := by
  cases step with
  | swept here => exact .inl ⟨(Option.some.inj effect).symm, here⟩
  | unswept r bad here => exact .inl ⟨(Reply.eq_of_effect effect).symm, here⟩
  | requeued ids here => exact .inr (.inl ⟨ids, (Option.some.inj effect).symm, here⟩)
  | unrequeued ids r bad here => exact .inr (.inl ⟨ids, (Reply.eq_of_effect effect).symm, here⟩)
  | committed batchId started row here =>
    obtain ⟨new, rfl, rfl⟩ := Option.map_eq_some_iff.mp effect
    exact .inr (.inr ⟨new, rfl, batchId, started, here⟩)
  | uncommitted batchId started row r here =>
    obtain ⟨new, rfl, same⟩ := Option.bind_eq_some_iff.mp effect
    exact .inr (.inr ⟨new, (Reply.eq_of_effect same).symm, batchId, started, here⟩)
  | _ => cases effect

/-! ### The service -/

/-- What one action does: time passes, a call begins, or a call takes a step. -/
inductive Stepped (cfg : Config σ) (s : State σ) : Action σ → State σ → Prop
  | tick (d : ℕ) : Stepped cfg s (.tick d) { s with now := s.now + d }
  | request (r : Request) : Stepped cfg s (.request r) { s with calls := s.calls ++ [r.call] }
  | gate (i : ℕ) (m : Move σ) (g : Gate) (phase : GatePhase) (st : Option (Stmt σ)) :
      s.calls[i]? = some (.gate g) → g.Step cfg (s.view cfg i) m phase st →
      Stepped cfg s (.act i m)
        { s with db := s.db.after st, calls := s.calls.set i (.gate (g.enter phase)) }
  | worker (i : ℕ) (m : Move σ) (w : Worker σ) (phase : WorkerPhase σ) (st : Option (Stmt σ)) :
      s.calls[i]? = some (.worker w) → w.Step cfg (s.view cfg i) m phase st →
      Stepped cfg s (.act i m)
        { s with db := s.db.after st, calls := s.calls.set i (.worker (w.enter phase)) }
  | starter (i : ℕ) (m : Move σ) (b : Starter) (phase : StarterPhase) (st : Option (Stmt σ)) :
      s.calls[i]? = some (.starter b) → b.Step cfg (s.view cfg i) m phase st →
      Stepped cfg s (.act i m)
        { s with db := s.db.after st, calls := s.calls.set i (.starter (b.enter phase)) }

theorem State.stepped {s s' : State σ} {a : Action σ} (h : s.step cfg a = some s') :
    Stepped cfg s a s' := by
  cases a with
  | tick d => exact Option.some.inj h ▸ .tick d
  | request r => exact Option.some.inj h ▸ .request r
  | act i m =>
    obtain ⟨c, here, h⟩ := Option.bind_eq_some_iff.mp h
    obtain ⟨⟨c', st⟩, moved, h⟩ := Option.map_eq_some_iff.mp h
    cases c <;> obtain ⟨⟨x, st⟩, moved, eq⟩ := Option.map_eq_some_iff.mp moved <;> cases eq <;>
      cases h
    · obtain ⟨phase, rfl, gs⟩ := Gate.step_of_advance moved
      exact .gate i m _ phase st here gs
    · obtain ⟨phase, rfl, ws⟩ := Worker.step_of_advance moved
      exact .worker i m _ phase st here ws
    · obtain ⟨phase, rfl, bs⟩ := Starter.step_of_advance moved
      exact .starter i m _ phase st here bs

/-- The step of a call, in its own terms. -/
theorem State.acted {s s' : State σ} {i : ℕ} (step : s.step cfg (.act i m) = some s') :
    ∃ c c' st, s.calls[i]? = some c ∧ c.advance cfg (s.view cfg i) m = some (c', st) ∧
      s' = { s with db := s.db.after st, calls := s.calls.set i c' } := by
  obtain ⟨c, here, step⟩ := Option.bind_eq_some_iff.mp step
  obtain ⟨⟨c', st⟩, moved, step⟩ := Option.map_eq_some_iff.mp step
  exact ⟨c, c', st, here, moved, step.symm⟩

theorem State.acted_worker {s s' : State σ} {i : ℕ} {w : Worker σ}
    (here : s.calls[i]? = some (.worker w)) (step : s.step cfg (.act i m) = some s') :
    ∃ w' st, w.advance cfg (s.view cfg i) m = some (w', st) ∧
      s' = { s with db := s.db.after st, calls := s.calls.set i (.worker w') } := by
  obtain ⟨c, c', st, there, moved, same⟩ := State.acted step
  cases here.symm.trans there
  obtain ⟨⟨w', st⟩, moved, eq⟩ := Option.map_eq_some_iff.mp moved
  cases eq
  exact ⟨w', st, moved, same⟩

section

variable {s s' : State σ} {a : Action σ} {j : ℕ}

/-- Where a call of the gate stands after an action: where it stood, at its entry, or where its
own step has led it. -/
theorem Stepped.gate_cases (stepped : Stepped cfg s a s') {g : Gate}
    (there : s'.calls[j]? = some (.gate g)) :
    s.calls[j]? = some (.gate g) ∨ g.phase = .entry ∨
      ∃ m g₀ phase st, a = .act j m ∧ s.calls[j]? = some (.gate g₀) ∧
        g₀.Step cfg (s.view cfg j) m phase st ∧ g = g₀.enter phase := by
  cases stepped with
  | tick => exact .inl there
  | request r =>
    rcases Pool.getElem?_append_cases there with ⟨-, same⟩ | old
    · cases r <;> cases same
      exact .inr (.inl rfl)
    · exact .inl old
  | gate i m g₀ phase st here gs =>
    rcases Pool.getElem?_set_cases there with ⟨rfl, same⟩ | ⟨-, old⟩
    · cases same
      exact .inr (.inr ⟨m, g₀, phase, st, rfl, here, gs, rfl⟩)
    · exact .inl old
  | worker | starter =>
    rcases Pool.getElem?_set_cases there with ⟨-, same⟩ | ⟨-, old⟩
    · cases same
    · exact .inl old

theorem Stepped.worker_cases (stepped : Stepped cfg s a s') {w : Worker σ}
    (there : s'.calls[j]? = some (.worker w)) :
    s.calls[j]? = some (.worker w) ∨ w.phase = .ready ∨
      ∃ m w₀ phase st, a = .act j m ∧ s.calls[j]? = some (.worker w₀) ∧
        w₀.Step cfg (s.view cfg j) m phase st ∧ w = w₀.enter phase := by
  cases stepped with
  | tick => exact .inl there
  | request r =>
    rcases Pool.getElem?_append_cases there with ⟨-, same⟩ | old
    · cases r <;> cases same
      exact .inr (.inl rfl)
    · exact .inl old
  | worker i m w₀ phase st here ws =>
    rcases Pool.getElem?_set_cases there with ⟨rfl, same⟩ | ⟨-, old⟩
    · cases same
      exact .inr (.inr ⟨m, w₀, phase, st, rfl, here, ws, rfl⟩)
    · exact .inl old
  | gate | starter =>
    rcases Pool.getElem?_set_cases there with ⟨-, same⟩ | ⟨-, old⟩
    · cases same
    · exact .inl old

end

/-! ### Advisory locks -/

theorem Gate.Step.lock_free {g : Gate} {phase : GatePhase} (step : g.Step cfg v m phase st) {k : ℤ}
    (held : (g.enter phase).lock cfg = some k) : k ∉ v.locked ∨ g.lock cfg = some k := by
  cases step with
  | locked verdict start here free => exact .inl (by cases held; exact free)
  | checked verdict start here =>
    right
    rcases checked_cases v.db g.review verdict start with eq | ⟨_, eq⟩ | eq <;> rw [eq] at held <;>
      cases held <;> simp [Gate.lock, here, pairLock, enter]
  | counted start since here =>
    right
    rcases counted_cases cfg v.db g.review start since with eq | ⟨-, eq⟩ <;> rw [eq] at held <;>
      cases held <;> simp [Gate.lock, here, pairLock, enter]
  | inserted start here free =>
    right
    rcases inserted_cases v.db g.review g.eventId start with ⟨_, -, eq⟩ | eq <;> rw [eq] at held <;>
      cases held <;> simp [Gate.lock, here, pairLock, enter]
  | timed start here | persisted start code here free | unpersisted start code r here =>
    right
    cases held
    simp [Gate.lock, here, pairLock, enter]
  | _ => cases held

theorem Starter.Step.lock_free {b : Starter} {phase : StarterPhase} (step : b.Step cfg v m phase st)
    {k : ℤ} (held : (b.enter phase).lock cfg = some k) : k ∉ v.locked ∨ b.lock cfg = some k := by
  -- outside the transaction of `start_batch` no lock is held
  have swept : ∀ b' : Starter, (b.enter b'.swept).lock cfg = none := by
    intro b'
    unfold Starter.swept
    split <;> rfl
  cases step with
  | locked start here free => exact .inl (by cases held; exact free)
  | swept here =>
    split at held
    · simp [swept] at held
    · cases held
  | requeued ids here => simp [swept] at held
  | occupied start row here | vacant start here | inserted id start here =>
    right
    cases held
    simp [Starter.lock, here]
  | _ => cases held

/-- A step that takes a lock finds it free, any other step takes none. -/
theorem State.locks_step {s s' : State σ} {a : Action σ} (h : Pool.Exclusive (Call.lock cfg) s.calls)
    (step : s.step cfg a = some s') : Pool.Exclusive (Call.lock cfg) s'.calls := by
  cases State.stepped step with
  | tick => exact h
  | request r => exact h.append (by cases r <;> rfl)
  | gate i m g phase st here gs =>
    exact h.set fun k held => (gs.lock_free held).elim id fun old => h.kept here old
  | worker => exact h.set fun k none => nomatch none
  | starter i m b phase st here bs =>
    exact h.set fun k held => (bs.lock_free held).elim id fun old => h.kept here old

/-- No advisory lock is held by two calls. -/
theorem State.locks_exclusive {ok : State σ → Action σ → Prop} {s : State σ}
    (reachable : Reachable cfg ok s) : Pool.Exclusive (Call.lock cfg) s.calls :=
  Runs.Reachable.invariant (P := fun s : State σ => Pool.Exclusive (Call.lock cfg) s.calls)
    (fun _ (init : State.Init _) => init.2 ▸ Pool.Exclusive.nil)
    (fun _ _ _ _ h step _ => State.locks_step h step) reachable

end DostReview.Review
