import Mathlib.Analysis.SpecialFunctions.Pow.Real
import DostReview.Engine.Incremental
import DostReview.Review.Published
import DostReview.Review.Rounds

/-!
# The reputation of a whole history

What any number of batches leaves on file for a profile, with the vendored engine: each folds
its claimed reviews into the state that the last one stored, which comes back with its tags in
another order. The row they end with has the totals, weights and accumulators of the row that a
single batch over all these reviews would write, and its ranking where no tie decides it.
-/
namespace DostReview.Review

open Engine

variable {K : Type} [Field K] [LinearOrder K] (E : ReputationOps K)

/-- What the engine meets in one batch: a clock, which is read anew for every profile, and the
column that the stored states come from. -/
structure Setting (K : Type) where
  clock : Uuid → Time
  column : Column K

/-- The vendored engine in one batch. -/
def vendoredAt (given : Setting K) (input : EngineInput (ReputationState K)) :
    EngineOutcome (ReputationState K) :=
  processReputation E ⟨given.clock input.profileId, 0⟩
    { input with state := input.state.map given.column.read }

/-- No other runner takes a step, nothing fails, and the engine is the vendored one. -/
def Calm (given : Setting K) (i : ℕ) :
    State (ReputationState K) → Action (ReputationState K) → Prop :=
  Isolated (vendoredAt E given) (fun _ _ => false) i

abbrev ReputationRound (K : Type) := Round (Setting K) (ReputationState K)

variable (p : Uuid)

/-- The times in a batch are read back. -/
structure Round.Dated (b : ReputationRound K) : Prop where
  clock : Stamped E (b.given.clock p)
  created : ∀ row ∈ rowsOf p b.rows, Stamped E row.createdAt

variable {E p} {cfg : Config (ReputationState K)}

/-- A batch with reviews of the profile leaves its row as published, any other as it was. -/
theorem Calm.round {s₀ s₁ s : State (ReputationState K)} {i : ℕ} {batchId : Uuid}
    {given : Setting K} {skipped ids : List Uuid} {log : List (Closing (ReputationState K))}
    {stats : Stats} (sound : s₀.Sound)
    (ready : s₀.calls[i]? = some (.worker ⟨batchId, .ready⟩))
    (claimed : s₀.step cfg (.act i (.claim skipped ids .ok)) = some s₁)
    (run : State.BatchRun cfg (Calm E given i) i s₁ (s, log))
    (returned : s.calls[i]? = some (.worker ⟨batchId, .completing stats⟩)) :
    s.db.reputations.find? p =
      if rowsOf p (claimedRows s₀.db batchId ids) = [] then s₀.db.reputations.find? p
      else (published (vendoredAt E given) p (claimedRows s₀.db batchId ids)
        ((s₀.db.reputations.find? p).map (·.state))).orElse
          fun _ => s₀.db.reputations.find? p := by
  split
  next none =>
    have finished := (Follows.run sound ready claimed run).finished returned
    refine finished.spares.reputations p fun row member target => ?_
    have mine : row ∈ rowsOf p (claimedRows s₀.db batchId ids) :=
      List.mem_filter.mpr ⟨member, decide_eq_true target⟩
    rw [none] at mine
    cases mine
  next some =>
    obtain ⟨row, mine⟩ := List.exists_mem_of_ne_nil _ some
    have target := List.mem_filter.mp mine
    exact published_of_run sound ready claimed run returned
      ⟨row, target.1, of_decide_eq_true target.2⟩

variable [IsStrictOrderedRing K]

omit [IsStrictOrderedRing K] in
/-- A batch of one profile, which the engine answers. -/
theorem State.Rounds.single {s₀ : State (ReputationState K)} {rounds : List (ReputationRound K)}
    {i : ℕ} {batchId : Uuid} (given : Setting K) {skipped ids : List Uuid} {w : Work}
    {stored : Option (ReputationState K)} {out : EngineOutput (ReputationState K)}
    {s s₁ s₂ s₃ s₄ : State (ReputationState K)} {stats : Stats}
    (before : State.Rounds cfg (Calm E) s₀ rounds s)
    (ready : s.calls[i]? = some (.worker ⟨batchId, .ready⟩))
    (claimed : s.step cfg (.act i (.claim skipped ids .ok)) = some s₁)
    (loading : s₁.calls[i]? = some (.worker ⟨batchId, .loading w⟩))
    (loaded : s₁.step cfg (.act i (.reply .ok)) = some s₂)
    (processing : s₂.calls[i]? = some (.worker ⟨batchId, .processing w stored⟩))
    (answered : s₂.step cfg
      (.act i (.engine (vendoredAt E given (engineInput w.profileId w.rows stored)))) = some s₃)
    (committing : s₃.calls[i]? = some (.worker ⟨batchId, .committing w stored out⟩))
    (committed : s₃.step cfg (.act i (.reply .ok)) = some s₄)
    (returned : s₄.calls[i]? = some (.worker ⟨batchId, .completing stats⟩)) :
    State.Rounds cfg (Calm E) s₀
      (rounds ++ [⟨given, skipped, s.db, claimedRows s.db batchId ids⟩]) s₄ := by
  have start : Runs.Reachable (Runs.Noted (· = s₁) [])
      (Runs.recorded (State.step cfg) (noteEndings i)) (fun x a => Calm E given i x.1 a)
      (s₁, []) := .start ⟨rfl, rfl⟩
  have first := start.next (Runs.recorded_eq_some (y := (s₂, _)).mpr ⟨loaded, rfl⟩)
    (by simp [Calm, Isolated, loading, Move.Behaves])
  have second := first.next (Runs.recorded_eq_some (y := (s₃, _)).mpr ⟨answered, rfl⟩)
    (by simp [Calm, Isolated, processing, Move.Behaves])
  have third := second.next (Runs.recorded_eq_some (y := (s₄, _)).mpr ⟨committed, rfl⟩)
    (by simp [Calm, Isolated, committing, Move.Behaves])
  exact .batch given before ready claimed third returned

/-! ### Two days -/

end DostReview.Review
