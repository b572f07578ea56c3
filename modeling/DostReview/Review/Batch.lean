import DostReview.Review.Gate

/-!
# The batch engine and the batch runner

`run_batch_to_completion`, with `run_batch` and `_handle_failed_reviews` inside, and
`start_batch` with its sweep, as machines that take a step at each await. A direct call of
`run_batch` is a call of the former that ends where the latter returns.
-/
namespace DostReview.Review

variable {σ : Type}

/-! ### `run_batch` -/

/-- The claim's rows: no more than the limit, all of them `GATED` and not locked, and none
received after a `GATED` row that was neither locked nor taken; as many as there are. -/
def Picks (db : Db σ) (limit : ℕ) (skipped ids : List Uuid) : Prop :=
  -- `SKIP LOCKED`: which rows are locked is for the run to say
  let open_ := db.reviews.rows.filter fun row => row.status = .gated ∧ row.id ∉ skipped
  ids.Nodup ∧ (∀ id ∈ ids, id ∈ open_.map (·.id)) ∧ ids.length = min limit open_.length ∧
    ∀ row ∈ open_, row.id ∈ ids → ∀ other ∈ open_, other.id ∉ ids → row.receivedAt ≤ other.receivedAt

instance (db : Db σ) (limit : ℕ) (skipped ids : List Uuid) : Decidable (Picks db limit skipped ids) := by
  unfold Picks
  exact inferInstance

/-- `RETURNING *`: the claimed rows as the UPDATE leaves them. -/
def claimedRows (db : Db σ) (batchId : Uuid) (ids : List Uuid) : List ReviewRow :=
  ids.filterMap fun id => (db.reviews.find? id).map (Stmt.claim (σ := σ) batchId ids).onReview

/-- The rows by target profile, the profiles in the order of their first row. -/
def groupByTarget (rows : List ReviewRow) : Dict Uuid (List ReviewRow) :=
  rows.foldl (fun groups row => Dict.set groups row.targetProfileId
    ((Dict.get? groups row.targetProfileId).getD [] ++ [row])) []

def mergeTags (out : EngineOutput σ) : Dict String TagEntry :=
  out.topTags.foldl (fun merged (tag, weight, score) => Dict.set merged tag ⟨weight, some score⟩)
    (out.allTags.foldl (fun merged (tag, count) => Dict.set merged tag ⟨count, none⟩) [])

def reputationRow (profileId : Uuid) (out : EngineOutput σ) : ReputationRow σ :=
  { profileId := profileId
    reputation := out.reputation
    reputationScore := out.reputationScore
    totalReviews := out.totalReviews
    allTags := mergeTags out
    summary := out.summary.getD ""
    state := out.state }

/-- The profile in hand with its rows, the profiles to come, and the statistics so far. -/
structure Work where
  profileId : Uuid
  rows : List ReviewRow
  rest : List (Uuid × List ReviewRow)
  stats : Stats

inductive WorkerPhase (σ : Type)
  /-- load the engine, then claim -/
  | ready
  | loading (w : Work)
  | processing (w : Work) (stored : Option σ)
  | committing (w : Work) (stored : Option σ) (out : EngineOutput σ)
  /-- `_handle_failed_reviews`, from the engine's error or from the exception handler -/
  | settling (w : Work) (todo : List ReviewRow) (willRetry handler : Bool)
  | completing (stats : Stats)
  /-- the handler of `run_batch_to_completion`: mark the batch, then requeue its rows -/
  | failing (error : String)
  | requeueing
  | returned (status : BatchStatus)
  | gone

structure Worker (σ : Type) where
  batchId : Uuid
  phase : WorkerPhase σ

/-- The next profile of the batch, or its end. -/
def nextProfile : List (Uuid × List ReviewRow) → Stats → WorkerPhase σ
  | [], stats => .completing stats
  | (profileId, rows) :: rest, stats => .loading ⟨profileId, rows, rest, stats⟩

/-- Go on settling, or on to the next profile. -/
def settle (w : Work) (todo : List ReviewRow) (willRetry handler : Bool) : WorkerPhase σ :=
  match todo with
  | [] => nextProfile w.rest w.stats
  | todo => .settling w todo willRetry handler

abbrev DeadLetters (cfg : Config σ) (willRetry : Bool) (row : ReviewRow) : Prop :=
  willRetry = false ∨ cfg.maxReviewRetries ≤ row.retryCount + 1

def settleStmt (cfg : Config σ) (willRetry : Bool) (row : ReviewRow) (now : Time) : Stmt σ :=
  if DeadLetters cfg willRetry row then .deadLetter row.id (row.retryCount + 1) now
  else .giveBack row.id (row.retryCount + 1)

def settleStats (cfg : Config σ) (willRetry : Bool) (row : ReviewRow) (stats : Stats) : Stats :=
  if DeadLetters cfg willRetry row then { stats with deadLettered := stats.deadLettered + 1 }
  else { stats with failed := stats.failed + 1 }

namespace Work

/-- The commit transaction of the profile in hand. -/
def commit (w : Work) (out : EngineOutput σ) (now : Time) : Stmt σ :=
  .commitProfile (reputationRow w.profileId out) (w.rows.map (·.id)) now

def committed (w : Work) : WorkerPhase σ :=
  nextProfile w.rest { w.stats with
    committed := w.stats.committed + w.rows.length
    profilesUpdated := w.stats.profilesUpdated + 1 }

/-- The exception handler of the profile in hand. -/
def handle (w : Work) : WorkerPhase σ := settle w w.rows true true

end Work

namespace Worker

def enter (w : Worker σ) (phase : WorkerPhase σ) : Worker σ := { w with phase := phase }

def ended (w : Worker σ) : Bool :=
  match w.phase with
  | .returned _ => true
  | .gone => true
  | _ => false

def claimed (rows : List ReviewRow) : WorkerPhase σ :=
  nextProfile (groupByTarget rows) { totalReviews := rows.length }

def advance (cfg : Config σ) (v : View σ) (w : Worker σ) :
    Move σ → Option (Worker σ × Option (Stmt σ))
  | .crash => if w.ended then none else some (w.enter .gone, none)
  | .claim skipped ids r =>
    match w.phase with
    | .ready =>
      if Picks v.db cfg.maxReviewsPerBatch skipped ids then
        some (w.enter (match r with
            | .ok => claimed (claimedRows v.db w.batchId ids)
            | .failed e => .failing e
            | .lost e => .failing e),
          r.effect (.claim w.batchId ids))
      else none
    | _ => none
  | .engine outcome =>
    match w.phase, outcome with
    -- `_load_engine` runs before the loop, so its exception leaves `run_batch`
    | .ready, .raised e => some (w.enter (.failing e), none)
    | .processing work stored, .output out => some (w.enter (.committing work stored out), none)
    -- `output["error"].get("willRetry", True)`
    | .processing work _, .error willRetry =>
      some (w.enter (settle work work.rows (willRetry.getD true) false), none)
    | .processing work _, .raised _ => some (w.enter work.handle, none)
    | _, _ => none
  | .reply r =>
    match w.phase with
    | .loading work =>
      some (w.enter (match r with
        | .ok => .processing work ((v.db.reputations.find? work.profileId).map (·.state))
        | _ => work.handle), none)
    | .committing work _ out =>
      -- the UPDATE waits for a row that a gate's transaction has locked
      if ∃ row ∈ work.rows, row.id ∈ v.written then none
      else
        some (w.enter (match r with
          | .ok => work.committed
          | _ => work.handle), r.effect (work.commit out v.now))
    | .settling work (row :: todo) willRetry handler =>
      if row.id ∈ v.written then none
      else
        some (w.enter (match r with
          | .ok => settle { work with stats := settleStats cfg willRetry row work.stats } todo
              willRetry handler
          -- inside the handler the exception leaves `run_batch`, elsewhere it enters the handler
          | .failed e => if handler then .failing e else work.handle
          | .lost e => if handler then .failing e else work.handle),
          r.effect (settleStmt cfg willRetry row v.now))
    -- a failed final UPDATE turns the batch, all committed, into a failed one
    | .completing stats =>
      some (w.enter (match r with
        | .ok => .returned .completed
        | .failed e => .failing e
        | .lost e => .failing e), r.effect (.finish w.batchId .completed (.stats stats) v.now))
    -- both handlers swallow their own exceptions: the requeue follows either way
    | .failing e =>
      some (w.enter .requeueing, r.effect (.finish w.batchId .failed (.error e) v.now))
    | .requeueing => some (w.enter (.returned .failed), r.effect (.requeue [w.batchId]))
    | _ => none
  | _ => none

end Worker

/-! ### `start_batch` and `sweep_stale_batches` -/

inductive StarterPhase
  | sweeping
  | requeueing (ids : List Uuid)
  | opening
  /-- `pg_advisory_xact_lock` -/
  | locking (start : Time)
  /-- look for a `RUNNING` batch; from here on the lock is held -/
  | reading (start : Time)
  | inserting (start : Time)
  /-- leaving the transaction, with the row it has written -/
  | committing (batchId : Uuid) (started : Bool) (written : Option BatchRow)
  | returned (batch : Option (Uuid × Bool))
  | gone

/-- A call of `start_batch`, or of the sweep alone. -/
structure Starter where
  opens : Bool
  phase : StarterPhase

namespace Starter

def enter (st : Starter) (phase : StarterPhase) : Starter := { st with phase := phase }

def ended (st : Starter) : Bool :=
  match st.phase with
  | .returned _ => true
  | .gone => true
  | _ => false

def lock (cfg : Config σ) (st : Starter) : Option ℤ :=
  match st.phase with
  | .reading _ => some cfg.startLock
  | .inserting _ => some cfg.startLock
  | .committing _ _ _ => some cfg.startLock
  | _ => none

/-- `NOW() - make_interval(mins => stale_batch_after_minutes)` -/
def staleBefore (cfg : Config σ) (now : Time) : Time := now - minutes cfg.staleBatchAfterMinutes

/-- `RETURNING id` of the sweep. -/
def sweptIds (cfg : Config σ) (v : View σ) : List Uuid :=
  (v.db.batches.rows.filter (Stmt.stale (staleBefore cfg v.now))).map (·.id)

/-- After the sweep: `start_batch` goes on, a sweep alone returns. -/
def swept (st : Starter) : StarterPhase := if st.opens then .opening else .returned none

def batchRow (id : Uuid) (start : Time) : BatchRow := ⟨id, .running, none, start, none⟩

def advance (cfg : Config σ) (v : View σ) (st : Starter) :
    Move σ → Option (Starter × Option (Stmt σ))
  | .crash => if st.ended then none else some (st.enter .gone, none)
  | .uuid id r =>
    match st.phase, r with
    -- an id that exists already violates the primary key
    | .inserting start, .ok =>
      some (st.enter (if (v.db.batches.find? id).isSome then .gone
        else .committing id true (some (batchRow id start))), none)
    | .inserting _, _ => some (st.enter .gone, none)
    | _, _ => none
  | .reply r =>
    match st.phase with
    -- an exception in the sweep or its requeue leaves `start_batch`
    | .sweeping =>
      some (st.enter (match r with
        | .ok => if sweptIds cfg v = [] then st.swept else .requeueing (sweptIds cfg v)
        | _ => .gone), r.effect (.sweep (staleBefore cfg v.now) v.now))
    | .requeueing ids =>
      some (st.enter (match r with
        | .ok => st.swept
        | _ => .gone), r.effect (.requeue ids))
    -- `NOW()` is fixed here, before the lock is granted
    | .opening => some (st.enter (if r = .ok then .locking v.now else .gone), none)
    | .locking start =>
      if r = .ok then
        if cfg.startLock ∈ v.locked then none else some (st.enter (.reading start), none)
      else some (st.enter .gone, none)
    | .reading start =>
      some (st.enter (if r = .ok then
          match v.db.batches.rows.find? fun row => row.status = .running with
          | some row => .committing row.id false none
          | none => .inserting start
        else .gone), none)
    -- the row becomes visible with the commit, acknowledged or not
    | .committing batchId started row =>
      some (st.enter (if r = .ok then .returned (some (batchId, started)) else .gone),
        row.bind fun row => r.effect (.insertBatch row))
    | _ => none
  | _ => none

end Starter

end DostReview.Review
