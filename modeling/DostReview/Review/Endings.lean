import DostReview.Review.Conservation
import DostReview.Review.Poison

/-!
# How a batch ends its profiles

`run_batch` from its claim on, with no other runner taking steps. Each profile of the batch
is committed or its reviews are settled; a failure while they are settled inside the `try`
block has the exception handler settle all of them again. The endings are recorded in
order.
-/
namespace DostReview.Review

variable {σ : Type} {cfg : Config σ} {db db' : Db σ} {v : View σ} {m : Move σ}
  {st : Option (Stmt σ)}

/-! ### Endings -/

inductive Ending (σ : Type)
  | committed (out : EngineOutput σ)
  | settled (willRetry : Bool)
  /-- settled again by the handler, after a failure that found these settled already -/
  | resettled (willRetry : Bool) (early : List ReviewRow)

/-- A profile of the batch, its claimed reviews, and how they ended. -/
structure Closing (σ : Type) where
  profileId : Uuid
  rows : List ReviewRow
  ending : Ending σ

def Closing.group (c : Closing σ) : Uuid × List ReviewRow := (c.profileId, c.rows)

def Work.closing (w : Work) (e : Ending σ) : Closing σ := ⟨w.profileId, w.rows, e⟩

def settleAll (cfg : Config σ) (willRetry : Bool) (rows : List ReviewRow) (stats : Stats) : Stats :=
  rows.foldl (fun stats row => settleStats cfg willRetry row stats) stats

namespace Ending

/-- The `will_retry` that the reviews were last settled with. -/
def retry : Ending σ → Option Bool
  | committed _ => none
  | settled willRetry => some willRetry
  | resettled _ _ => some true

/-- The engine's result was an error with `willRetry` false. -/
def Refused : Ending σ → Prop
  | settled willRetry => willRetry = false
  | resettled willRetry _ => willRetry = false
  | committed _ => False

/-- The status and the retries that a claimed review ends with. -/
def final (cfg : Config σ) (e : Ending σ) (row : ReviewRow) : ReviewStatus × ℕ :=
  match e.retry with
  | none => (.committed, row.retryCount)
  -- from the row as it was claimed, so that a second settling counts no second retry
  | some willRetry =>
    (if DeadLetters cfg willRetry row then .failed else .gated, row.retryCount + 1)

/-- What the statistics count before the last settling. -/
def before (cfg : Config σ) (e : Ending σ) (stats : Stats) : Stats :=
  match e with
  | resettled willRetry early => settleAll cfg willRetry early stats
  | _ => stats

def tally (cfg : Config σ) (e : Ending σ) (rows : List ReviewRow) (stats : Stats) : Stats :=
  match e.retry with
  | none =>
    { stats with
      committed := stats.committed + rows.length
      profilesUpdated := stats.profilesUpdated + 1 }
  | some willRetry => settleAll cfg willRetry rows (e.before cfg stats)

theorem final_ne_processing (e : Ending σ) (row : ReviewRow) :
    (e.final cfg row).1 ≠ .processing := by
  unfold final
  split
  · simp
  · dsimp only
    split <;> simp

theorem final_accepted (e : Ending σ) (row : ReviewRow) : (e.final cfg row).1 ≠ .gateRejected := by
  unfold final
  split
  · simp
  · dsimp only
    split <;> simp

end Ending

/-- The statistics of a batch after some of its profiles. -/
def tallies (cfg : Config σ) (log : List (Closing σ)) (stats : Stats) : Stats :=
  log.foldl (fun stats c => c.ending.tally cfg c.rows stats) stats

theorem tallies_snoc (log : List (Closing σ)) (c : Closing σ) (stats : Stats) :
    tallies cfg (log ++ [c]) stats = c.ending.tally cfg c.rows (tallies cfg log stats) := by
  simp only [tallies, List.foldl_append, List.foldl_cons, List.foldl_nil]

theorem settleAll_snoc (willRetry : Bool) (rows : List ReviewRow) (row : ReviewRow)
    (stats : Stats) : settleAll cfg willRetry (rows ++ [row]) stats =
      settleStats cfg willRetry row (settleAll cfg willRetry rows stats) := by
  simp only [settleAll, List.foldl_append, List.foldl_cons, List.foldl_nil]

/-! ### The record -/

/-- What a move of the runner adds to the record of the endings. -/
def WorkerPhase.closes : WorkerPhase σ → Move σ → List (Closing σ) → List (Closing σ)
  | .loading w, .reply (.failed _), log => log ++ [w.closing (.settled true)]
  | .processing w _, .engine (.error willRetry), log =>
    log ++ [w.closing (.settled (willRetry.getD true))]
  -- the exception handler settles with `will_retry=True`
  | .processing w _, .engine (.raised _), log => log ++ [w.closing (.settled true)]
  | .committing w _ out, .reply .ok, log => log ++ [w.closing (.committed out)]
  | .committing w _ _, .reply (.failed _), log => log ++ [w.closing (.settled true)]
  -- the reviews in hand are settled once more, so their entry is replaced
  | .settling w todo willRetry false, .reply (.failed _), log =>
    log.dropLast ++ [w.closing (.resettled willRetry (w.rows.take (w.rows.length - todo.length)))]
  | _, _, log => log

def noteEndings (i : ℕ) (s : State σ) : Action σ → List (Closing σ) → List (Closing σ)
  | .act j m, log =>
    match s.calls[j]? with
    | some (.worker w) => if j = i then w.phase.closes m log else log
    | _ => log
  | _, log => log

/-! ### A runner alone -/

/-- No crash, and what fails has no effect. -/
def Move.Transient : Move σ → Prop
  | .crash => False
  | .reply (.lost _) => False
  | .claim _ _ (.lost _) => False
  | _ => True

/-- No other runner takes a step, and this one meets transient failures at most. -/
def Alone (i : ℕ) (s : State σ) : Action σ → Prop
  | .act j m =>
    match s.calls[j]? with
    | some (.worker _) => j = i ∧ m.Transient
    | _ => True
  | _ => True

instance : ∀ m : Move σ, Decidable m.Transient
  | .crash => isFalse id
  | .reply (.lost _) => isFalse id
  | .reply .ok => isTrue trivial
  | .reply (.failed _) => isTrue trivial
  | .claim _ _ (.lost _) => isFalse id
  | .claim _ _ .ok => isTrue trivial
  | .claim _ _ (.failed _) => isTrue trivial
  | .clock => isTrue trivial
  | .onboard _ => isTrue trivial
  | .engine _ => isTrue trivial
  | .uuid _ _ => isTrue trivial

instance (i : ℕ) (s : State σ) : ∀ a : Action σ, Decidable (Alone i s a)
  | .tick _ => isTrue trivial
  | .request _ => isTrue trivial
  | .act j m =>
    match h : s.calls[j]? with
    | some (.worker _) => decidable_of_iff (j = i ∧ m.Transient) (by simp [Alone, h])
    | some (.gate _) => isTrue (by simp [Alone, h])
    | some (.starter _) => isTrue (by simp [Alone, h])
    | none => isTrue (by simp [Alone, h])

/-- `run_batch` has raised, or its caller has gone on. -/
def WorkerPhase.Over : WorkerPhase σ → Prop
  | .failing _ => True
  | .requeueing => True
  | .returned _ => True
  | .gone => True
  | _ => False

/-- The steps of a runner that meets transient failures only. -/
inductive Worker.Turn (cfg : Config σ) (v : View σ) (w : Worker σ) :
    Move σ → WorkerPhase σ → Option (Stmt σ) → Prop
  | smooth (m : Move σ) (phase : WorkerPhase σ) (st : Option (Stmt σ)) :
      w.Smooth cfg v m phase st → Turn cfg v w m phase st
  | unread (work : Work) (e : String) : w.phase = .loading work →
      Turn cfg v w (.reply (.failed e)) work.handle none
  | raised (work : Work) (stored : Option σ) (e : String) : w.phase = .processing work stored →
      Turn cfg v w (.engine (.raised e)) work.handle none
  | uncommitted (work : Work) (stored : Option σ) (out : EngineOutput σ) (e : String) :
      w.phase = .committing work stored out → Turn cfg v w (.reply (.failed e)) work.handle none
  | resettled (work : Work) (row : ReviewRow) (todo : List ReviewRow) (willRetry : Bool)
      (e : String) : w.phase = .settling work (row :: todo) willRetry false →
      Turn cfg v w (.reply (.failed e)) work.handle none
  | past (m : Move σ) (phase : WorkerPhase σ) (st : Option (Stmt σ)) : phase.Over →
      (∀ log, w.phase.closes m log = log) → Turn cfg v w m phase st

/-- A statement of the runner fails without effect. -/
theorem Worker.turn_of_failed {w w' : Worker σ} {e : String}
    (moved : w.advance cfg v (.reply (.failed e)) = some (w', st)) :
    ∃ phase, w' = w.enter phase ∧ w.Turn cfg v (.reply (.failed e)) phase st := by
  simp only [advance] at moved
  split at moved
  next work here =>
    cases moved
    exact ⟨_, rfl, .unread work e here⟩
  next work stored out here =>
    -- a failed transaction is rolled back whole
    split at moved
    · cases moved
    cases moved
    exact ⟨_, rfl, .uncommitted work stored out e here⟩
  next work row todo willRetry handler here =>
    split at moved
    · cases moved
    cases moved
    -- within the handler the exception leaves `run_batch`
    cases handler with
    | true => exact ⟨_, rfl, .past _ _ _ trivial fun _ => by rw [here]; rfl⟩
    | false => exact ⟨_, rfl, .resettled work row todo willRetry e here⟩
  next stats here =>
    cases moved
    exact ⟨_, rfl, .past _ _ _ trivial fun _ => by rw [here]; rfl⟩
  next e here =>
    cases moved
    exact ⟨_, rfl, .past _ _ _ trivial fun _ => by rw [here]; rfl⟩
  next here =>
    cases moved
    exact ⟨_, rfl, .past _ _ _ trivial fun _ => by rw [here]; rfl⟩
  next => cases moved

theorem Worker.turn_of_raised {w w' : Worker σ} {e : String}
    (moved : w.advance cfg v (.engine (.raised e)) = some (w', st)) :
    ∃ phase, w' = w.enter phase ∧ w.Turn cfg v (.engine (.raised e)) phase st := by
  simp only [advance] at moved
  split at moved
  next here _ =>
    cases moved
    exact ⟨_, rfl, .past _ _ _ trivial fun _ => by rw [here]; rfl⟩
  next same => cases same
  next same => cases same
  next work stored e here same =>
    cases moved
    cases same
    exact ⟨_, rfl, .raised work stored _ here⟩
  next => cases moved

theorem Worker.turn_of_advance {w w' : Worker σ} (moved : w.advance cfg v m = some (w', st))
    (transient : m.Transient) : ∃ phase, w' = w.enter phase ∧ w.Turn cfg v m phase st := by
  -- what does not fail goes smoothly
  have smooth : (∀ r, m = .reply r → r = .ok) →
      (∀ skipped ids r, m = .claim skipped ids r → r = .ok) → (∀ e, m ≠ .engine (.raised e)) →
      ∃ phase, w' = w.enter phase ∧ w.Turn cfg v m phase st := by
    intro replies claims returns
    have alive : m ≠ .crash := by
      rintro rfl
      exact transient
    obtain ⟨phase, same, step⟩ := Worker.smooth_of_advance moved replies claims alive returns
    exact ⟨phase, same, .smooth _ _ _ step⟩
  cases m with
  | crash => exact transient.elim
  | clock | onboard | uuid => cases moved
  | claim skipped ids r =>
    cases r with
    | ok => exact smooth (by simp) (by rintro _ _ _ ⟨⟩; rfl) (by simp)
    | lost e => exact transient.elim
    | failed e =>
      -- nothing is claimed, and the exception leaves `run_batch`
      simp only [advance] at moved
      split at moved
      next here =>
        split at moved
        · cases moved
          exact ⟨_, rfl, .past _ _ _ trivial fun _ => by rw [here]; rfl⟩
        · cases moved
      next => cases moved
  | engine outcome =>
    cases outcome with
    | output | error => exact smooth (by simp) (by simp) (by simp)
    | raised e => exact Worker.turn_of_raised moved
  | reply r =>
    cases r with
    | ok => exact smooth (by rintro _ ⟨⟩; rfl) (by simp) (by simp)
    | failed e => exact Worker.turn_of_failed moved
    | lost e => exact transient.elim

end DostReview.Review
