import DostReview.Library.Table
import DostReview.Risk.Values

/-!
# The review tables

The rows of `review`, `profile_reputation` and `batch_run`, and the statements that the
gate, the batch engine and the batch runner make on them. A statement is one atomic step
of the database, as is a transaction of several; its effect is a function of the tables.
-/
namespace DostReview.Review

abbrev Uuid := ℕ

/-- Microseconds. -/
abbrev Time := ℤ

/-- `timedelta(hours=24)` -/
def day : Time := 24 * 3600 * 1000000

/-- `make_interval(mins => n)` -/
def minutes (n : ℕ) : Time := n * 60 * 1000000

/-- `chk_review_status` -/
inductive ReviewStatus
  | gated
  | gateRejected
  | processing
  | committed
  | failed
  deriving DecidableEq

/-- `chk_batch_status` -/
inductive BatchStatus
  | running
  | completed
  | failed
  deriving DecidableEq

/-- The error codes of the gate, which are also the reasons of its audit rows. -/
inductive GateCode
  | selfReview
  | duplicate
  | targetNotFound
  | targetInactive
  | raterNotFound
  | raterInactive
  | rateLimited
  deriving DecidableEq

def GateCode.errorCode : GateCode → String
  | selfReview => "SELF_REVIEW"
  | duplicate => "DUPLICATE"
  | targetNotFound => "TARGET_NOT_FOUND"
  | targetInactive => "TARGET_INACTIVE"
  | raterNotFound => "RATER_NOT_FOUND"
  | raterInactive => "RATER_INACTIVE"
  | rateLimited => "RATE_LIMITED"

def GateCode.message : GateCode → String
  | selfReview => "Cannot review yourself"
  | duplicate => "Review already submitted"
  | targetNotFound => "Target profile does not exist"
  | targetInactive => "Target profile is not active"
  | raterNotFound => "Rater profile does not exist"
  | raterInactive => "Rater profile is not active"
  | rateLimited => "Too many reviews for this target today"

inductive GateResult
  | passed
  | rejected (code : GateCode)
  deriving DecidableEq

set_option linter.dupNamespace false in
/-- `models.DostReview`, validated. -/
structure DostReview where
  reviewId : Uuid
  targetProfileId : Uuid
  raterProfileId : Uuid
  reviewText : String
  multimedia : Option (List Risk.JsonObject) := none
  createdAt : Time

structure ReviewRow where
  id : Uuid
  targetProfileId : Uuid
  raterProfileId : Uuid
  raterWeight : ℚ
  reviewText : String
  multimediaJson : Option (List Risk.JsonObject)
  status : ReviewStatus
  batchId : Option Uuid
  eventId : Option Uuid
  createdAt : Time
  processedAt : Option Time
  receivedAt : Time
  retryCount : ℕ
  gateReason : Option GateCode

/-- The gate has let the review in: its row is no mere audit record. -/
abbrev ReviewRow.Accepted (row : ReviewRow) : Prop := row.status ≠ .gateRejected

/-- An entry of `all_tags`. -/
structure TagEntry where
  weight : ℚ
  score : Option ℚ := none

/-- A row of `profile_reputation`, with an engine state `σ`. -/
structure ReputationRow (σ : Type) where
  profileId : Uuid
  reputation : String
  reputationScore : ℚ
  totalReviews : ℕ
  allTags : Dict String TagEntry
  summary : String
  state : σ

structure Stats where
  totalReviews : ℕ := 0
  committed : ℕ := 0
  failed : ℕ := 0
  deadLettered : ℕ := 0
  profilesUpdated : ℕ := 0
  deriving DecidableEq

/-- What `batch_run.stats` holds: the stats, or `{"error": …}`. -/
inductive Report
  | stats (s : Stats)
  | error (message : String)
  deriving DecidableEq

structure BatchRow where
  id : Uuid
  status : BatchStatus
  stats : Option Report
  startedAt : Time
  completedAt : Option Time
  deriving DecidableEq

structure Db (σ : Type) where
  reviews : Table Uuid ReviewRow (·.id)
  reputations : Table Uuid (ReputationRow σ) (·.profileId)
  batches : Table Uuid BatchRow (·.id)

def Db.empty {σ : Type} : Db σ := ⟨.empty, .empty, .empty⟩

/-- The settings, the ids of the advisory locks (the pair's and `batch_run:start`), and
the number of reviews that an engine state says it holds. -/
structure Config (σ : Type) where
  maxReviewsPerBatch : ℕ := 10000
  rateLimitPerRaterPerTarget : ℕ := 5
  maxReviewRetries : ℕ := 3
  staleBatchAfterMinutes : ℕ := 60
  pairLock : Uuid → Uuid → ℤ
  startLock : ℤ
  totalOf : σ → ℕ

/-! ### Statements -/

/-- The writes of the service, with `NOW()` where they stamp it. The upserts of the gate
come with the row they leave. -/
inductive Stmt (σ : Type)
  /-- the gate's upserts -/
  | putReview (row : ReviewRow)
  /-- `run_batch`: `SET status = 'PROCESSING', batch_id = $1` -/
  | claim (batchId : Uuid) (ids : List Uuid)
  /-- `run_batch`: the commit transaction of one profile -/
  | commitProfile (row : ReputationRow σ) (ids : List Uuid) (now : Time)
  /-- `_handle_failed_reviews`: dead-letter -/
  | deadLetter (id : Uuid) (retryCount : ℕ) (now : Time)
  /-- `_handle_failed_reviews`: back to `GATED` -/
  | giveBack (id : Uuid) (retryCount : ℕ)
  /-- `SET status = 'GATED' WHERE status = 'PROCESSING' AND batch_id = ANY(…)` -/
  | requeue (batchIds : List Uuid)
  /-- `run_batch_to_completion`: the final status -/
  | finish (batchId : Uuid) (status : BatchStatus) (report : Report) (now : Time)
  /-- `sweep_stale_batches`: `RUNNING` batches started before a time -/
  | sweep (before : Time) (now : Time)
  /-- `start_batch` -/
  | insertBatch (row : BatchRow)

namespace Stmt

variable {σ : Type}

/-- What an UPDATE makes of a review row; the identity where it does not match. -/
def onReview : Stmt σ → ReviewRow → ReviewRow
  | claim batchId ids, row =>
    if row.id ∈ ids then { row with status := .processing, batchId := some batchId } else row
  | commitProfile _ ids now, row =>
    if row.id ∈ ids then { row with status := .committed, processedAt := some now } else row
  | deadLetter id retryCount now, row =>
    if row.id = id then
      { row with status := .failed, retryCount := retryCount, processedAt := some now }
    else row
  | giveBack id retryCount, row =>
    if row.id = id then { row with status := .gated, retryCount := retryCount } else row
  -- beside the claim's SELECT, the only condition on the status of a review
  | requeue batchIds, row =>
    if row.status = .processing ∧ row.batchId ∈ batchIds.map some then { row with status := .gated }
    else row
  | _, row => row

/-- `'{"error": "stale — process died mid-batch"}'` -/
def staleReport : Report := .error "stale — process died mid-batch"

/-- A `RUNNING` batch started before a time. -/
def stale (before : Time) (row : BatchRow) : Bool := row.status = .running ∧ row.startedAt < before

def onBatch : Stmt σ → BatchRow → BatchRow
  | finish batchId status report now, row =>
    if row.id = batchId then
      { row with status := status, stats := some report, completedAt := some now }
    else row
  | sweep before now, row =>
    if stale before row then
      { row with status := .failed, stats := some staleReport, completedAt := some now }
    else row
  | _, row => row

theorem onReview_id (st : Stmt σ) (row : ReviewRow) : (st.onReview row).id = row.id := by
  cases st <;> simp only [onReview] <;> split <;> rfl

theorem onBatch_id (st : Stmt σ) (row : BatchRow) : (st.onBatch row).id = row.id := by
  cases st <;> simp only [onBatch] <;> split <;> rfl

def exec (st : Stmt σ) (db : Db σ) : Db σ where
  reviews :=
    match st with
    | putReview row => db.reviews.put row
    | st => db.reviews.update st.onReview st.onReview_id
  reputations :=
    match st with
    | commitProfile row _ _ => db.reputations.put row
    | _ => db.reputations
  batches :=
    match st with
    | insertBatch row => db.batches.put row
    | st => db.batches.update st.onBatch st.onBatch_id

@[simp] theorem find?_exec_putReview (row : ReviewRow) (db : Db σ) (k : Uuid) :
    ((putReview row).exec db).reviews.find? k =
      if k = row.id then some row else db.reviews.find? k :=
  Table.find?_put db.reviews row k

/-- Every statement but the gate's upserts updates the reviews it matches. -/
theorem find?_exec (st : Stmt σ) (h : ∀ row, st ≠ .putReview row) (db : Db σ) (k : Uuid) :
    (st.exec db).reviews.find? k = (db.reviews.find? k).map st.onReview := by
  cases st
  case putReview row => exact absurd rfl (h row)
  all_goals exact Table.find?_update _ _ (onReview_id _) _

theorem find?_exec_of_found {st : Stmt σ} (h : ∀ row, st ≠ .putReview row) {db : Db σ} {k : Uuid}
    {row : ReviewRow} (found : db.reviews.find? k = some row) :
    (st.exec db).reviews.find? k = some (st.onReview row) := by
  rw [find?_exec st h, found]
  rfl

theorem find?_exec_of_unmatched {st : Stmt σ} (h : ∀ row, st ≠ .putReview row) {db : Db σ}
    {k : Uuid} (unmatched : ∀ row : ReviewRow, row.id = k → st.onReview row = row) :
    (st.exec db).reviews.find? k = db.reviews.find? k := by
  rw [find?_exec st h]
  cases found : db.reviews.find? k with
  | none => rfl
  | some row => exact congrArg some (unmatched row (Table.key_of_find? found))

/-- A row that is there after an UPDATE comes from one that was there before. -/
theorem row_before {st : Stmt σ} (h : ∀ row, st ≠ .putReview row) {db : Db σ} {k : Uuid}
    {row' : ReviewRow} (found' : (st.exec db).reviews.find? k = some row') :
    ∃ row, db.reviews.find? k = some row ∧ row.id = k ∧ st.onReview row = row' := by
  rw [find?_exec st h] at found'
  obtain ⟨row, found, same⟩ := Option.map_eq_some_iff.mp found'
  exact ⟨row, found, Table.key_of_find? found, same⟩

@[simp] theorem find?_exec_insertBatch (row : BatchRow) (db : Db σ) (k : Uuid) :
    ((insertBatch row).exec db).batches.find? k =
      if k = row.id then some row else db.batches.find? k :=
  Table.find?_put db.batches row k

theorem find?_exec_batches (st : Stmt σ) (h : ∀ row, st ≠ .insertBatch row) (db : Db σ) (k : Uuid) :
    (st.exec db).batches.find? k = (db.batches.find? k).map st.onBatch := by
  cases st
  case insertBatch row => exact absurd rfl (h row)
  all_goals exact Table.find?_update _ _ (onBatch_id _) _

/-- No UPDATE takes a review out of the accepted ones. -/
theorem onReview_accepted (st : Stmt σ) {row : ReviewRow} (h : row.Accepted) :
    (st.onReview row).Accepted := by
  cases st <;> simp only [onReview] <;> first | exact h | (split <;> first | exact h | simp)

end Stmt

/-- The columns that only the gate writes are the same. -/
def ReviewRow.SameSubmission (row row' : ReviewRow) : Prop :=
  row' = { row with
    status := row'.status, batchId := row'.batchId
    processedAt := row'.processedAt, retryCount := row'.retryCount }

theorem Stmt.onReview_same {σ : Type} (st : Stmt σ) (row : ReviewRow) :
    row.SameSubmission (st.onReview row) := by
  cases st <;> simp only [onReview, ReviewRow.SameSubmission] <;> split <;> rfl

def Db.after {σ : Type} (db : Db σ) (st : Option (Stmt σ)) : Db σ :=
  match st with
  | none => db
  | some st => st.exec db

end DostReview.Review
