import DostReview.Library.Pool
import DostReview.Library.Runs
import DostReview.Review.Batch

/-!
# The service

Any number of calls of the gate, the batch runner and the starter over one database, in
any interleaving of their steps, with time passing between them.
-/
namespace DostReview.Review

variable {σ : Type}

/-- A call in progress or ended. -/
inductive Call (σ : Type)
  | gate (g : Gate)
  | worker (w : Worker σ)
  | starter (st : Starter)

namespace Call

def lock (cfg : Config σ) : Call σ → Option ℤ
  | gate g => g.lock cfg
  | worker _ => none
  | starter st => st.lock cfg

/-- The review a call has written and not committed. -/
def pending : Call σ → Option Uuid
  | gate g => g.written.map (·.id)
  | _ => none

def advance (cfg : Config σ) (v : View σ) : Call σ → Move σ → Option (Call σ × Option (Stmt σ))
  | gate g, m => (g.advance cfg v m).map fun (g', st) => (.gate g', st)
  | worker w, m => (w.advance cfg v m).map fun (w', st) => (.worker w', st)
  | starter s, m => (s.advance cfg v m).map fun (s', st) => (.starter s', st)

end Call

/-- What the routes and the scheduler call. -/
inductive Request
  | gateAndStore (review : DostReview) (eventId : Option Uuid)
  | startBatch
  | sweepStaleBatches
  | runBatchToCompletion (batchId : Uuid)

def Request.call : Request → Call σ
  | gateAndStore review eventId => .gate ⟨review, eventId, .entry⟩
  | startBatch => .starter ⟨true, .sweeping⟩
  | sweepStaleBatches => .starter ⟨false, .sweeping⟩
  | runBatchToCompletion batchId => .worker ⟨batchId, .ready⟩

structure State (σ : Type) where
  db : Db σ
  now : Time
  calls : List (Call σ)

inductive Action (σ : Type)
  | tick (d : ℕ)
  | request (r : Request)
  | act (i : ℕ) (m : Move σ)

namespace State

/-- The database as the call at a place finds it. -/
def view (cfg : Config σ) (s : State σ) (i : ℕ) : View σ where
  db := s.db
  now := s.now
  locked := (Pool.others s.calls i).filterMap (·.lock cfg)
  written := (Pool.others s.calls i).filterMap (·.pending)

def step (cfg : Config σ) (s : State σ) : Action σ → Option (State σ)
  | .tick d => some { s with now := s.now + d }
  | .request r => some { s with calls := s.calls ++ [r.call] }
  | .act i m =>
    s.calls[i]?.bind fun c =>
      (c.advance cfg (s.view cfg i) m).map fun (c', st) =>
        { s with db := s.db.after st, calls := s.calls.set i c' }

/-- Before the first request, after the migrations. -/
def Init (s : State σ) : Prop := s.db = .empty ∧ s.calls = []

/-- The states of the runs whose steps all meet a condition. -/
abbrev Reachable (cfg : Config σ) (ok : State σ → Action σ → Prop) : State σ → Prop :=
  Runs.Reachable Init (step cfg) ok

def start : State σ := ⟨.empty, 0, []⟩

theorem reachable_of_run {cfg : Config σ} {s : State σ} {actions : List (Action σ)}
    (run : Runs.perform (step cfg) start actions = some s) : Reachable cfg Runs.Anything s :=
  Runs.Reachable.perform (.start ⟨rfl, rfl⟩) run

end State

/-- The default settings, for an engine whose state is the number of its reviews. -/
def defaults : Config ℕ where
  pairLock := fun rater target => rater * 1000 + target
  startLock := -1
  totalOf := id

def sampleReview (id rater : Uuid) : DostReview := ⟨id, 1, rater, "Helpful", none, 0⟩

/-- The steps of an acceptance up to its check of the rate limit, without Onboard. -/
def untilCheck (i : ℕ) : List (Action σ) :=
  [.act i (.onboard .disabled), .act i (.reply .ok), .act i (.reply .ok), .act i (.reply .ok),
    .act i .clock]

/-- The check passes, and the row is written and committed. -/
def checkAndCommit (i : ℕ) : List (Action σ) :=
  [.act i (.reply .ok), .act i (.reply .ok), .act i (.reply .ok)]

/-- The steps of `start_batch` with nothing stale and nothing running. -/
def startsBatch (i : ℕ) (batchId : Uuid) : List (Action σ) :=
  [.act i (.reply .ok), .act i (.reply .ok), .act i (.reply .ok), .act i (.reply .ok),
    .act i (.uuid batchId .ok), .act i (.reply .ok)]

/-- The engine's answer for a profile that had `before` reviews and gets `n` more. -/
def sampleOutput (before n : ℕ) : EngineOutput ℕ :=
  { reputation := "Helpful", reputationScore := 1, totalReviews := before + n, state := before + n }

/-- The review 7 is accepted, and the batch 77 takes it and reads its profile. -/
def sampleBatch : List (Action ℕ) :=
  .request (.gateAndStore (sampleReview 7 2) none) :: untilCheck 0 ++ checkAndCommit 0 ++
    .request .startBatch :: startsBatch 1 77 ++
  [.request (.runBatchToCompletion 77), .act 2 (.claim [] [7] .ok), .act 2 (.reply .ok)]

end DostReview.Review
