import DostReview.Review.Rows

/-!
# `gate_and_store`

One call of the gate as a machine that takes a step at each await: the Onboard lookup, the
transaction with its advisory lock, the three queries and the upsert, the commit. What a
call sees of the others are the locks they hold and the rows they have written without
having committed.
-/
namespace DostReview.Review

/-- How an awaited database call ends: it answers, it raises without effect, or it takes
effect and the answer is lost. -/
inductive Reply
  | ok
  | failed (error : String)
  | lost (error : String)
  deriving DecidableEq

/-- The effect of an autocommitted statement, if it has one. -/
def Reply.effect {α : Type} (a : α) : Reply → Option α
  | failed _ => none
  | _ => some a

theorem Reply.eq_of_effect {α : Type} {a b : α} {r : Reply} (h : r.effect a = some b) : a = b := by
  cases r with
  | failed => cases h
  | ok | lost => exact Option.some.inj h

/-- What `_validate_profiles` gets from Onboard: no pool, a failed query, or the statuses
of the profiles found. -/
inductive OnboardAnswer
  | disabled
  | failed
  | rows (found : Dict Uuid String)

/-- `_validate_profiles`; a failed query lets the review pass. -/
def validateProfiles (answer : OnboardAnswer) (target rater : Uuid) : Option GateCode :=
  match answer with
  | .disabled => none
  | .failed => none
  | .rows found =>
    match Dict.get? found target, Dict.get? found rater with
    | none, _ => some .targetNotFound
    | some t, r =>
      if t ≠ "ACTIVE" then some .targetInactive
      else
        match r with
        | none => some .raterNotFound
        | some r => if r ≠ "ACTIVE" then some .raterInactive else none

/-- `EngineOutput`: what `process_reputation` answers. -/
structure EngineOutput (σ : Type) where
  reputation : String
  reputationScore : ℚ
  totalReviews : ℕ
  allTags : List (String × ℚ) := []
  topTags : List (String × ℚ × ℚ) := []
  summary : Option String := none
  state : σ

/-- The ways a call of the engine ends: an output, an `{error}` result with its `willRetry`,
or an exception. -/
inductive EngineOutcome (σ : Type)
  | output (out : EngineOutput σ)
  | error (willRetry : Option Bool)
  | raised (error : String)

/-- What moves a call: the end of what it awaits, its reading of the application's clock, or
the death of its process. A claim names the rows it finds locked and the rows it takes. -/
inductive Move (σ : Type)
  | crash
  | clock
  | onboard (answer : OnboardAnswer)
  | reply (r : Reply)
  | claim (skipped ids : List Uuid) (r : Reply)
  | engine (outcome : EngineOutcome σ)
  | uuid (id : Uuid) (r : Reply)

/-- What was awaited has taken effect, whether or not the call learns of it. -/
def Move.Lands {σ : Type} : Move σ → Prop
  | .reply .ok => True
  | .reply (.lost _) => True
  | _ => False

instance {σ : Type} : ∀ m : Move σ, Decidable m.Lands
  | .reply .ok => isTrue trivial
  | .reply (.lost _) => isTrue trivial
  | .reply (.failed _) => isFalse id
  | .crash => isFalse id
  | .clock => isFalse id
  | .onboard _ => isFalse id
  | .claim _ _ _ => isFalse id
  | .engine _ => isFalse id
  | .uuid _ _ => isFalse id

/-- The database as one call finds it: the committed tables, the time, and of the other
calls the advisory locks they hold and the reviews they have written but not committed. -/
structure View (σ : Type) where
  db : Db σ
  now : Time
  locked : List ℤ
  written : List Uuid

/-! ### The gate's statements -/

section

variable {σ : Type} (db : Db σ) (review : DostReview) (eventId : Option Uuid)

/-- The row a first rejection inserts. -/
def rejectedRow (code : GateCode) (now : Time) : ReviewRow :=
  { id := review.reviewId
    targetProfileId := review.targetProfileId
    raterProfileId := review.raterProfileId
    raterWeight := 1
    reviewText := review.reviewText
    multimediaJson := none
    status := .gateRejected
    batchId := none
    eventId := eventId
    createdAt := review.createdAt
    processedAt := none
    receivedAt := now
    retryCount := 0
    gateReason := some code }

/-- `_persist_rejected`: the row it writes, if it writes one. -/
def persistRejected (code : GateCode) (now : Time) : Option ReviewRow :=
  match db.reviews.find? review.reviewId with
  | none => some (rejectedRow review eventId code now)
  | some row =>
    if row.status = .gateRejected then
      some { row with gateReason := some code, eventId := eventId, receivedAt := now }
    else none

/-- The row a first acceptance inserts; an empty media list is stored as NULL. -/
def gatedRow (now : Time) : ReviewRow :=
  { id := review.reviewId
    targetProfileId := review.targetProfileId
    raterProfileId := review.raterProfileId
    raterWeight := 1
    reviewText := review.reviewText
    multimediaJson := review.multimedia.filter (!·.isEmpty)
    status := .gated
    batchId := none
    eventId := eventId
    createdAt := review.createdAt
    processedAt := none
    receivedAt := now
    retryCount := 0
    gateReason := none }

/-- The accepting upsert: the row it writes, if it writes one. -/
def insertGated (now : Time) : Option ReviewRow :=
  match db.reviews.find? review.reviewId with
  | none => some (gatedRow review eventId now)
  | some row =>
    if row.status = .gateRejected then
      some { row with
        targetProfileId := review.targetProfileId
        raterProfileId := review.raterProfileId
        reviewText := review.reviewText
        multimediaJson := review.multimedia.filter (!·.isEmpty)
        status := .gated
        gateReason := none
        eventId := eventId
        createdAt := review.createdAt
        receivedAt := now }
    else none

/-- The rows of a pair that count against its quota from a time on. -/
def countsFrom (rater target : Uuid) (since : Time) (row : ReviewRow) : Bool :=
  row.raterProfileId = rater ∧ row.targetProfileId = target ∧ since ≤ row.receivedAt ∧
    row.status ≠ .gateRejected

/-- The duplicate check: the review has a row that is no rejection. -/
def alreadySubmitted : Bool :=
  match db.reviews.find? review.reviewId with
  | none => false
  | some row => row.status ≠ .gateRejected

end

/-! ### The machine -/

/-- Where a call stands. Inside the transaction it carries `NOW()`, the transaction's start. -/
inductive GatePhase
  | entry
  /-- Onboard has answered: take a connection and begin -/
  | beginning (verdict : Option GateCode)
  /-- `pg_advisory_xact_lock` -/
  | locking (verdict : Option GateCode) (start : Time)
  /-- the duplicate check; from here on the lock is held -/
  | checking (verdict : Option GateCode) (start : Time)
  /-- `since = datetime.now(…) - timedelta(hours=24)` -/
  | timing (start : Time)
  | counting (start since : Time)
  | persisting (start : Time) (code : GateCode)
  | inserting (start : Time)
  /-- leaving the transaction, with the row it has written -/
  | committing (start : Time) (result : GateResult) (written : Option ReviewRow)
  | returned (result : GateResult)
  /-- it raised, or its process died: the transaction is rolled back -/
  | gone

structure Gate where
  review : DostReview
  eventId : Option Uuid
  phase : GatePhase

namespace Gate

variable {σ : Type}

def enter (g : Gate) (phase : GatePhase) : Gate := { g with phase := phase }

/-- The call has returned, raised or died. -/
def ended (g : Gate) : Bool :=
  match g.phase with
  | .returned _ => true
  | .gone => true
  | _ => false

abbrev SelfReview (g : Gate) : Prop := g.review.raterProfileId = g.review.targetProfileId

def pairLock (cfg : Config σ) (g : Gate) : ℤ :=
  cfg.pairLock g.review.raterProfileId g.review.targetProfileId

def lock (cfg : Config σ) (g : Gate) : Option ℤ :=
  match g.phase with
  | .checking _ _ => some (g.pairLock cfg)
  | .timing _ => some (g.pairLock cfg)
  | .counting _ _ => some (g.pairLock cfg)
  | .persisting _ _ => some (g.pairLock cfg)
  | .inserting _ => some (g.pairLock cfg)
  | .committing _ _ _ => some (g.pairLock cfg)
  | _ => none

/-- The row the call has written and not committed. -/
def written (g : Gate) : Option ReviewRow :=
  match g.phase with
  | .committing _ _ row => row
  | _ => none

/-- After the duplicate check: a duplicate, the verdict, or on to the rate limit. -/
def checked (db : Db σ) (review : DostReview) (verdict : Option GateCode) (start : Time) : GatePhase :=
  if alreadySubmitted db review then .committing start (.rejected .duplicate) none
  else
    match verdict with
    | some code => .persisting start code
    | none => .timing start

def counted (cfg : Config σ) (db : Db σ) (review : DostReview) (start since : Time) : GatePhase :=
  if cfg.rateLimitPerRaterPerTarget ≤
      db.reviews.count (countsFrom review.raterProfileId review.targetProfileId since) then
    .persisting start .rateLimited
  else .inserting start

/-- After the accepting upsert: passed, or zero rows because of a concurrent acceptance. -/
def inserted (db : Db σ) (review : DostReview) (eventId : Option Uuid) (start : Time) : GatePhase :=
  match insertGated db review eventId start with
  | some row => .committing start .passed (some row)
  | none => .committing start (.rejected .duplicate) none

/-- One step of a call that has not ended. -/
def advance (cfg : Config σ) (v : View σ) (g : Gate) : Move σ → Option (Gate × Option (Stmt σ))
  | .crash => if g.ended then none else some (g.enter .gone, none)
  | .clock =>
    match g.phase with
    | .timing start => some (g.enter (.counting start (v.now - day)), none)
    | _ => none
  | .onboard answer =>
    match g.phase with
    | .entry =>
      -- a self-review is rejected before Onboard is asked
      if g.SelfReview then none
      else
        some (g.enter (.beginning
          (validateProfiles answer g.review.targetProfileId g.review.raterProfileId)), none)
    | _ => none
  | .reply r =>
    match g.phase, r with
    | .entry, r =>
      -- the audit row of a self-review, outside any transaction; a failure is logged only
      if g.SelfReview ∧ g.review.reviewId ∉ v.written then
        some (g.enter (.returned (.rejected .selfReview)),
          (persistRejected v.db g.review g.eventId .selfReview v.now).bind fun row =>
            r.effect (.putReview row))
      else none
    | .beginning verdict, .ok => some (g.enter (.locking verdict v.now), none)
    | .locking verdict start, .ok =>
      -- waits for the holder of the lock
      if g.pairLock cfg ∈ v.locked then none else some (g.enter (.checking verdict start), none)
    | .checking verdict start, .ok => some (g.enter (checked v.db g.review verdict start), none)
    | .counting start since, .ok => some (g.enter (counted cfg v.db g.review start since), none)
    | .persisting start code, .ok =>
      -- waits for the transaction that has written a row with this id
      if g.review.reviewId ∈ v.written then none
      else
        some (g.enter (.committing start (.rejected code)
          (persistRejected v.db g.review g.eventId code start)), none)
    -- swallowed: the transaction is aborted and its commit rolls back
    | .persisting start code, _ => some (g.enter (.committing start (.rejected code) none), none)
    | .inserting start, .ok =>
      if g.review.reviewId ∈ v.written then none
      else some (g.enter (inserted v.db g.review g.eventId start), none)
    | .committing _ result row, .ok => some (g.enter (.returned result), row.map .putReview)
    -- the commit has taken effect, but the caller gets an exception
    | .committing _ _ row, .lost _ => some (g.enter .gone, row.map .putReview)
    | .committing _ _ _, .failed _ => some (g.enter .gone, none)
    | .timing _, _ => none
    | .returned _, _ => none
    | .gone, _ => none
    -- any other exception rolls the transaction back
    | _, _ => some (g.enter .gone, none)
  | _ => none

end Gate

end DostReview.Review
