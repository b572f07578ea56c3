import DostReview.Review.Accepted

/-!
# Attempts

How often a review is claimed, against `max_review_retries`. `_handle_failed_reviews` counts
an attempt when it gives a review back. The requeue of a failed batch and the one of the
sweep give reviews back without counting. A run in which every review comes back counted
keeps to the bound.
-/
namespace DostReview.Review

variable {σ : Type} {cfg : Config σ} {db : Db σ} {v : View σ} {m : Move σ} {st : Option (Stmt σ)}

/-! ### Counting claims -/

/-- The reviews that a claim takes. -/
def Move.takes : Move σ → List Uuid
  | .claim _ ids .ok => ids
  -- the claim is committed, though its caller does not hear of it
  | .claim _ ids (.lost _) => ids
  | _ => []

def Action.takes : Action σ → List Uuid
  | .act _ m => m.takes
  | _ => []

/-- How often each review has been claimed. -/
def countClaims (_ : State σ) (a : Action σ) (claims : Uuid → ℕ) (id : Uuid) : ℕ :=
  if id ∈ a.takes then claims id + 1 else claims id

/-- The statement in hand that may put reviews back to `GATED`. -/
def Call.returns (cfg : Config σ) (now : Time) : Call σ → Option (Stmt σ)
  | .worker w =>
    match w.phase with
    | .settling _ (row :: _) willRetry _ => some (settleStmt cfg willRetry row now)
    | .requeueing => some (.requeue [w.batchId])
    | _ => none
  | .starter b =>
    match b.phase with
    | .requeueing ids => some (.requeue ids)
    | _ => none
  | .gate _ => none

/-- The statement leaves no review `GATED` with fewer retries than it has been claimed: a give-back
counts the attempt, and a requeue finds no review in `PROCESSING`. -/
def Stmt.Counts (claims : Uuid → ℕ) (db : Db σ) : Stmt σ → Prop
  | .giveBack id retryCount => claims id ≤ retryCount
  | .requeue ids => ∀ row ∈ db.reviews.rows, row.status = .processing → row.batchId ∉ ids.map some
  | _ => True

/-- Reviews come back counted. -/
def CountsAttempts (cfg : Config σ) (x : State σ × (Uuid → ℕ)) : Action σ → Prop
  | .act i m =>
    ∀ c ∈ x.1.calls[i]?, m.Lands → ∀ st ∈ c.returns cfg x.1.now, st.Counts x.2 x.1.db
  | _ => True

instance (claims : Uuid → ℕ) (db : Db σ) : ∀ st : Stmt σ, Decidable (st.Counts claims db)
  | .giveBack id retryCount => inferInstanceAs (Decidable (claims id ≤ retryCount))
  | .requeue ids => inferInstanceAs (Decidable (∀ row ∈ db.reviews.rows,
      row.status = .processing → row.batchId ∉ ids.map some))
  | .putReview _ => isTrue trivial
  | .claim _ _ => isTrue trivial
  | .commitProfile _ _ _ => isTrue trivial
  | .deadLetter _ _ _ => isTrue trivial
  | .finish _ _ _ _ => isTrue trivial
  | .sweep _ _ => isTrue trivial
  | .insertBatch _ => isTrue trivial

instance (cfg : Config σ) (x : State σ × (Uuid → ℕ)) :
    ∀ a : Action σ, Decidable (CountsAttempts cfg x a)
  | .tick _ => isTrue trivial
  | .request _ => isTrue trivial
  | .act i m => inferInstanceAs (Decidable (∀ c ∈ x.1.calls[i]?, m.Lands →
      ∀ st ∈ c.returns cfg x.1.now, st.Counts x.2 x.1.db))

/-! ### The invariant -/

/-- No review has been claimed too often, and the retries left to one in `GATED` are no more than
its claims leave it. -/
structure Bounded (limit : ℕ) (db : Db σ) (claims : Uuid → ℕ) : Prop where
  attempts : ∀ id, claims id ≤ limit
  counted : ∀ id row, db.reviews.find? id = some row → row.status = .gated →
    claims id ≤ row.retryCount
  room : ∀ id row, db.reviews.find? id = some row → row.status = .gated ∨ row.status = .processing →
    row.retryCount < limit
  fresh : ∀ id, Replaceable db id → claims id = 0

namespace Bounded

variable {limit : ℕ} {claims : Uuid → ℕ} {written : List Uuid}

theorem replaceable_before (touch : Touches db written st) {id : Uuid}
    (free : Replaceable (db.after st) id) : Replaceable db id := by
  intro row found
  by_contra accepted
  obtain ⟨row', found', accepted', -⟩ := touch.keeps id row found accepted
  exact accepted' (free row' found')

/-- An UPDATE that is no claim: what it leaves `GATED` or in `PROCESSING` is as it was, or comes
back counted and with a retry left. -/
theorem update (h : Bounded limit db claims) {x : Stmt σ} (touch : Touches db written (some x))
    (plain : ∀ row, x ≠ .putReview row)
    (each : ∀ row, db.reviews.find? row.id = some row →
      ((x.onReview row).status = .gated → x.onReview row = row ∨
        claims row.id ≤ (x.onReview row).retryCount ∧ (x.onReview row).retryCount < limit) ∧
      ((x.onReview row).status = .processing → x.onReview row = row)) :
    Bounded limit (x.exec db) claims where
  attempts := h.attempts
  counted id row' found' gated := by
    obtain ⟨row, found, key, rfl⟩ := Stmt.row_before plain found'
    rcases (each row (key ▸ found)).1 gated with same | ⟨counts, -⟩
    · rw [same] at gated ⊢
      exact h.counted id row found gated
    · exact key ▸ counts
  room id row' found' status := by
    obtain ⟨row, found, key, rfl⟩ := Stmt.row_before plain found'
    obtain ⟨back, processing⟩ := each row (key ▸ found)
    rcases status with gated | inHand
    · rcases back gated with same | ⟨-, room⟩
      · rw [same] at gated ⊢
        exact h.room id row found (.inl gated)
      · exact room
    · have same := processing inHand
      rw [same] at inHand ⊢
      exact h.room id row found (.inr inHand)
  fresh id free := h.fresh id (replaceable_before touch free)

/-- A claim takes rows that have a retry left, and counts. -/
theorem claim (h : Bounded limit db claims) {maximum : ℕ} {batchId : Uuid} {skipped ids : List Uuid}
    (picks : Picks db maximum skipped ids) (touch : Touches db written (some (.claim batchId ids))) :
    Bounded limit ((Stmt.claim batchId ids).exec db)
      fun id => if id ∈ ids then claims id + 1 else claims id where
  attempts id := by
    split
    next taken =>
      obtain ⟨row, found, gated⟩ := picks.gated taken
      -- every claim so far is a retry of the row, and the row has one left
      have counted := h.counted id row found gated
      have room := h.room id row found (.inl gated)
      omega
    next => exact h.attempts id
  counted id row' found' gated := by
    obtain ⟨row, found, key, rfl⟩ := Stmt.row_before (by simp) found'
    by_cases taken : id ∈ ids
    · simp [Stmt.onReview, key, taken] at gated
    · simp only [Stmt.onReview, key, taken, if_false] at gated ⊢
      exact h.counted id row found gated
  room id row' found' status := by
    obtain ⟨row, found, key, rfl⟩ := Stmt.row_before (by simp) found'
    by_cases taken : id ∈ ids
    · obtain ⟨row₀, found₀, gated⟩ := picks.gated taken
      cases found.symm.trans found₀
      simp only [Stmt.onReview, key, taken, if_true]
      exact h.room id row found (.inl gated)
    · simp only [Stmt.onReview, key, taken, if_false] at status ⊢
      exact h.room id row found status
  fresh id free := by
    have before := replaceable_before touch free
    split
    next taken =>
      -- a row that the gate may still replace is `REJECTED`, and no claim takes it
      obtain ⟨row, found, gated⟩ := picks.gated taken
      have rejected := before row found
      rw [gated] at rejected
      cases rejected
    next => exact h.fresh id before

/-- The gate's upserts: a review on its first way in has not been claimed. -/
theorem put (h : Bounded limit db claims) (retries : 1 ≤ limit) {row : ReviewRow}
    (touch : Touches db written (some (.putReview row))) (first : row.retryCount = 0) :
    Bounded limit ((Stmt.putReview row).exec db) claims where
  attempts := h.attempts
  counted id row' found' gated := by
    rw [Stmt.find?_exec_putReview] at found'
    split at found'
    next mine =>
      cases found'
      -- the upsert has replaced a row that no batch has ever claimed
      have free : Replaceable db row.id := by
        cases touch with
        | wrote _ free => exact free
        | updated _ plain => exact absurd rfl (plain row)
      rw [mine, h.fresh row.id free]
      exact Nat.zero_le _
    next => exact h.counted id row' found' gated
  room id row' found' status := by
    rw [Stmt.find?_exec_putReview] at found'
    split at found'
    next =>
      cases found'
      omega
    next => exact h.room id row' found' status
  fresh id free := h.fresh id (replaceable_before touch free)

end Bounded

/-! ### One step -/

/-- The gate and the starter claim nothing. -/
theorem takes_of_gate {s s' : State σ} {i : ℕ} {g : Gate} (here : s.calls[i]? = some (.gate g))
    (step : s.step cfg (.act i m) = some s') : m.takes = [] := by
  cases m with
  | claim => simp [State.step, here, Call.advance, Gate.advance] at step
  | _ => rfl

theorem takes_of_starter {s s' : State σ} {i : ℕ} {b : Starter} (here : s.calls[i]? = some (.starter b))
    (step : s.step cfg (.act i m) = some s') : m.takes = [] := by
  cases m with
  | claim => simp [State.step, here, Call.advance, Starter.advance] at step
  | _ => rfl

/-- A worker's step is its claim, which is counted, or it counts nothing; what else takes effect
is the UPDATE due or the requeue. -/
theorem Worker.Step.takes {w : Worker σ} {phase : WorkerPhase σ} (step : w.Step cfg v m phase st) :
    (∃ skipped, Picks v.db cfg.maxReviewsPerBatch skipped m.takes ∧
      st = some (.claim w.batchId m.takes)) ∨
    m.takes = [] ∧ ∀ x, st = some x →
      m.Lands ∧ (w.due cfg v.now = some x ∨ w.phase = .requeueing ∧ x = .requeue [w.batchId]) := by
  have lands : ∀ {y x : Stmt σ} {r : Reply}, r.effect y = some x → (Move.reply r : Move σ).Lands := by
    intro y x r effect
    cases r with
    | failed => cases effect
    | ok | lost => trivial
  cases step with
  | claimed skipped ids here picks => exact .inl ⟨skipped, picks, rfl⟩
  | unclaimed skipped ids r e here picks =>
    -- a claim whose answer is lost has taken effect
    cases r with
    | failed => exact .inr ⟨rfl, by rintro x ⟨⟩⟩
    | ok | lost => exact .inl ⟨skipped, picks, rfl⟩
  | requeued r here =>
    refine .inr ⟨rfl, fun x effect => ⟨lands effect, .inr ⟨here, ?_⟩⟩⟩
    exact (Reply.eq_of_effect effect).symm
  | committed work stored out here | settled work row todo willRetry handler here
  | completed stats here =>
    exact .inr ⟨rfl, fun x effect => ⟨trivial, .inl (by simpa [Worker.due, here] using effect)⟩⟩
  | uncommitted work stored out r here | unsettled work row todo willRetry handler r e here
  | uncompleted stats r e here | marked e r here =>
    refine .inr ⟨rfl, fun x effect => ⟨lands effect, .inl ?_⟩⟩
    rw [← Reply.eq_of_effect effect]
    simp [Worker.due, here]
  | crashed | unloaded | read | unread | output | engineError | raised =>
    exact .inr ⟨rfl, by rintro x ⟨⟩⟩

/-- A starter's statement that has an effect has landed. -/
theorem Starter.Step.lands {b : Starter} {phase : StarterPhase} (step : b.Step cfg v m phase st)
    {x : Stmt σ} (effect : st = some x) : m.Lands := by
  have lands : ∀ {y : Stmt σ} {r : Reply}, r.effect y = some x → (Move.reply r : Move σ).Lands := by
    intro y r effect
    cases r with
    | failed => cases effect
    | ok | lost => trivial
  cases step with
  | swept | requeued | committed => trivial
  | unswept r bad here | unrequeued ids r bad here => exact lands effect
  | uncommitted batchId started row r here =>
    obtain ⟨_, -, effect⟩ := Option.bind_eq_some_iff.mp effect
    exact lands effect
  | _ => cases effect

theorem countClaims_of_takes {s : State σ} {i : ℕ} (none : m.takes = []) (claims : Uuid → ℕ) :
    countClaims s (.act i m) claims = claims := by
  funext id
  simp [countClaims, Action.takes, none]

section

variable {limit : ℕ} {claims : Uuid → ℕ} {written : List Uuid}

/-- A requeue that finds no review in `PROCESSING` moves none. -/
theorem Bounded.requeue (h : Bounded limit db claims) {ids : List Uuid}
    (touch : Touches db written (some (.requeue ids)))
    (counts : (Stmt.requeue ids : Stmt σ).Counts claims db) :
    Bounded limit ((Stmt.requeue ids).exec db) claims := by
  have still : ∀ row, db.reviews.find? row.id = some row →
      (Stmt.requeue ids : Stmt σ).onReview row = row := by
    intro row found
    simp only [Stmt.onReview]
    split
    next moves => exact absurd moves.2 (counts row (Table.mem_of_find? found) moves.1)
    next => rfl
  apply h.update touch (by simp)
  intro row found
  exact ⟨fun _ => .inl (still row found), fun _ => still row found⟩

/-- The UPDATE due of a worker, counted if it gives a review back. -/
theorem Bounded.due (h : Bounded cfg.maxReviewRetries db claims) {w : Worker σ} {now : Time}
    {x : Stmt σ} (touch : Touches db written (some x)) (due : w.due cfg now = some x)
    (counts : ∀ y ∈ (Call.worker w).returns cfg now, y.Counts claims db) :
    Bounded cfg.maxReviewRetries (x.exec db) claims := by
  rcases Worker.due_cases due with ⟨work, _, out, here, rfl⟩ |
    ⟨work, held, todo, willRetry, handler, here, rfl⟩ | ⟨_, _, rfl⟩
  · -- a committed review is neither `GATED` nor in `PROCESSING`
    apply h.update touch (by simp [Work.commit])
    intro row found
    simp only [Work.commit, Stmt.onReview]
    split
    · exact ⟨by rintro ⟨⟩, by rintro ⟨⟩⟩
    · exact ⟨fun _ => .inl rfl, fun _ => rfl⟩
  · -- one settling UPDATE: a dead letter leaves `PROCESSING` for good, a give-back is counted
    have counts := counts (settleStmt cfg willRetry held now) (by simp [Call.returns, here])
    unfold settleStmt at touch counts ⊢
    split at touch
    next dead =>
      rw [if_pos dead]
      apply h.update touch (by simp)
      intro row found
      simp only [Stmt.onReview]
      split
      · exact ⟨by rintro ⟨⟩, by rintro ⟨⟩⟩
      · exact ⟨fun _ => .inl rfl, fun _ => rfl⟩
    next back =>
      rw [if_neg back] at counts ⊢
      -- not dead-lettered, so the count it writes is below the bound
      have room : held.retryCount + 1 < cfg.maxReviewRetries := by
        simp only [DeadLetters, not_or] at back
        omega
      apply h.update touch (by simp)
      intro row found
      simp only [Stmt.onReview]
      split
      next mine => exact ⟨fun _ => .inr ⟨mine ▸ counts, room⟩, by rintro ⟨⟩⟩
      next => exact ⟨fun _ => .inl rfl, fun _ => rfl⟩
  · -- the end of the batch touches no review
    apply h.update touch (by simp)
    intro row found
    exact ⟨fun _ => .inl rfl, fun _ => rfl⟩

end

/-- What a recorded run keeps: sound calls, and the bound. -/
structure Attempted (cfg : Config σ) (x : State σ × (Uuid → ℕ)) : Prop where
  sound : x.1.Sound
  bounded : Bounded cfg.maxReviewRetries x.1.db x.2

theorem Attempted.step {x y : State σ × (Uuid → ℕ)} {a : Action σ} (h : Attempted cfg x)
    (retries : 1 ≤ cfg.maxReviewRetries)
    (step : Runs.recorded (State.step cfg) countClaims x a = some y) (counts : CountsAttempts cfg x a) :
    Attempted cfg y := by
  obtain ⟨s, claims⟩ := x
  obtain ⟨s', claims'⟩ := y
  obtain ⟨step, rfl⟩ := Runs.recorded_eq_some.mp step
  refine ⟨h.sound.step step, ?_⟩
  have sound := h.sound
  have bounded := h.bounded
  cases State.stepped step with
  | tick | request => exact bounded
  | gate i m g phase st here gs =>
    rw [countClaims_of_takes (takes_of_gate here step)]
    have touch := sound.gate here gs
    obtain rfl | ⟨row, rfl⟩ := gs.puts
    · exact bounded
    apply bounded.put retries touch
    -- both upserts of the gate write a row without retries
    rcases gs.put_cases sound.clean (sound.calls _ _ here) rfl with rejected | ⟨start, -, rfl⟩
    · cases touch with
      | wrote _ _ _ fresh => exact (fresh rejected).retries
      | updated _ plain => exact absurd rfl (plain row)
    · rfl
  | worker i m w phase st here ws =>
    have touch := ws.touches (sound.calls _ _ here)
    rcases ws.takes with ⟨skipped, picks, rfl⟩ | ⟨none, effects⟩
    · exact bounded.claim picks touch
    rw [countClaims_of_takes none]
    cases st with
    | none => exact bounded
    | some x =>
      obtain ⟨lands, due | ⟨requeueing, rfl⟩⟩ := effects x rfl
      · exact bounded.due touch due (counts _ here lands)
      · exact bounded.requeue touch (counts _ here lands _ (by simp [Call.returns, requeueing]))
  | starter i m b phase st here bs =>
    rw [countClaims_of_takes (takes_of_starter here step)]
    have touch := bs.touches
    cases st with
    | none => exact bounded
    | some x =>
      rcases bs.stmt_cases rfl with ⟨rfl, -⟩ | ⟨ids, rfl, requeueing⟩ | ⟨row, rfl, -⟩
      · apply bounded.update touch (by simp)
        exact fun row _ => ⟨fun _ => .inl rfl, fun _ => rfl⟩
      · -- the requeue of the sweep
        have lands := bs.lands rfl
        exact bounded.requeue touch (counts _ here lands _ (by simp [Call.returns, requeueing]))
      · apply bounded.update touch (by simp)
        exact fun row _ => ⟨fun _ => .inl rfl, fun _ => rfl⟩

theorem Attempted.start {x : State σ × (Uuid → ℕ)} (init : Runs.Noted State.Init (fun _ => 0) x) :
    Attempted cfg x := by
  obtain ⟨s, claims⟩ := x
  obtain ⟨⟨empty, none⟩, rfl⟩ := init
  have absent : ∀ id, s.db.reviews.find? id = Option.none := by
    intro id
    rw [empty]
    rfl
  constructor
  · have reached : State.Reachable cfg Runs.Anything s := .start ⟨empty, none⟩
    exact State.sound reached
  · exact ⟨fun _ => Nat.zero_le _, fun id row found => by simp [absent] at found,
      fun id row found => by simp [absent] at found, fun _ _ => rfl⟩

/-- In every run in which reviews come back to `GATED` counted, no review is claimed more often
than `max_review_retries`, and every one that is `GATED` or in `PROCESSING` has a retry left. -/
theorem attempts_bounded (retries : 1 ≤ cfg.maxReviewRetries) {s : State σ} {claims : Uuid → ℕ}
    (reachable : Runs.Reachable (Runs.Noted State.Init fun _ => 0)
      (Runs.recorded (State.step cfg) countClaims) (CountsAttempts cfg) (s, claims)) :
    (∀ id, claims id ≤ cfg.maxReviewRetries) ∧
    ∀ id row, s.db.reviews.find? id = some row → row.status = .gated ∨ row.status = .processing →
      row.retryCount < cfg.maxReviewRetries := by
  have attempted : Attempted cfg (s, claims) :=
    reachable.invariant (fun x init => Attempted.start init)
      fun x a y _ h step counts => h.step retries step counts
  exact ⟨attempted.bounded.attempts, attempted.bounded.room⟩

/-- A review fails twice in the engine: given back counted, it is claimed again and has one retry
left. -/
theorem attempts_bounded_twice : ∃ (s : State ℕ) (claims : Uuid → ℕ),
    Runs.performGuarded (Runs.recorded (State.step defaults) countClaims) (CountsAttempts defaults)
      (.start, fun _ => 0)
      (sampleBatch ++ [.act 2 (.engine (.error none)), .act 2 (.reply .ok), .act 2 (.reply .ok),
        .request (.runBatchToCompletion 78), .act 3 (.claim [] [7] .ok), .act 3 (.reply .ok),
        .act 3 (.engine (.error none)), .act 3 (.reply .ok)]) = some (s, claims) ∧
    claims 7 = 2 ∧ ∀ id, claims id ≤ 3 := by
  have run : Runs.performGuarded (Runs.recorded (State.step defaults) countClaims)
      (CountsAttempts defaults) (.start, fun _ => 0)
      (sampleBatch ++ [.act 2 (.engine (.error none)), .act 2 (.reply .ok), .act 2 (.reply .ok),
        .request (.runBatchToCompletion 78), .act 3 (.claim [] [7] .ok), .act 3 (.reply .ok),
        .act 3 (.engine (.error none)), .act 3 (.reply .ok)]) = some _ := rfl
  exact ⟨_, _, run, rfl,
    (attempts_bounded (by decide) (.performGuarded (.start ⟨⟨rfl, rfl⟩, rfl⟩) run)).1⟩

/-- The process of a batch dies, and an hour later the next start sweeps it, requeues its review
and starts a batch that claims it again. -/
def diesAndRestarts (i : ℕ) (batchId : Uuid) : List (Action ℕ) :=
  [.act i .crash, .tick (61 * 60 * 1000000), .request .startBatch, .act (i + 1) (.reply .ok)] ++
    startsBatch (i + 1) batchId ++
  [.request (.runBatchToCompletion batchId), .act (i + 2) (.claim [] [7] .ok)]

/-- Each time the process dies: the review is claimed a fourth time with no retry counted. -/
theorem attempts_unbounded : ∃ (s : State ℕ) (claims : Uuid → ℕ),
    Runs.Reachable (Runs.Noted State.Init fun _ => 0)
      (Runs.recorded (State.step defaults) countClaims) Runs.Anything (s, claims) ∧
    defaults.maxReviewRetries < claims 7 := by
  have run : Runs.perform (Runs.recorded (State.step defaults) countClaims) (.start, fun _ => 0)
      (sampleBatch ++ diesAndRestarts 2 78 ++ diesAndRestarts 4 79 ++ diesAndRestarts 6 80) =
      some _ := rfl
  exact ⟨_, _, .perform (.start ⟨⟨rfl, rfl⟩, rfl⟩) run, by decide⟩

end DostReview.Review
