import Mathlib.Algebra.Order.Floor.Ring
import Mathlib.Data.Rat.Floor
import DostReview.Engine.Sensible
import DostReview.Review.Conservation
import DostReview.Review.Published

/-!
# What a stored reputation shows

The rows of `profile_reputation` as what the engine's answers leave there, over any run; and with
the vendored engine every row as the rendering of the state beside it, which is a sensible one. The
column of the state keeps no order, so which of tied tags come first is not to be read there.
-/
namespace DostReview.Review

open Engine

/-! ### Rows are answers -/

section

variable {σ : Type} {cfg : Config σ}

/-- Where a runner waits for the engine, an answer is one that the engine may give. -/
def EngineAnswers (given : Work → Option σ → EngineOutput σ → Prop) (s : State σ) : Action σ → Prop
  | .act i (.engine (.output out)) => ∀ w work stored, s.calls[i]? = some (.worker w) →
      w.phase = .processing work stored → given work stored out
  | _ => True

/-- A runner comes to the engine by reading the reputation. -/
theorem Worker.Step.processing {v : View σ} {m : Move σ} {st : Option (Stmt σ)} {w : Worker σ}
    {phase : WorkerPhase σ} (step : w.Step cfg v m phase st) {work : Work} {stored : Option σ}
    (h : phase = .processing work stored) :
    stored = (v.db.reputations.find? work.profileId).map (·.state) := by
  have onward : ¬ phase.Onward := fun onward => by
    rw [h] at onward
    exact onward
  cases step with
  | read work' here =>
    cases h
    rfl
  | claimed | committed => exact absurd (onward_nextProfile _ _) onward
  | unread | raised | uncommitted | engineError | settled =>
    exact absurd (onward_settle _ _ _ _) onward
  | unsettled work' row todo willRetry handler =>
    cases handler with
    | true => cases h
    | false => exact absurd (onward_settle _ _ _ _) onward
  | _ => cases h

/-- A row that is there after a step was there before it, or a runner has just committed it. -/
theorem Stepped.reputation {s s' : State σ} {a : Action σ} (stepped : Stepped cfg s a s') {p : Uuid}
    {row : ReputationRow σ} (found : s'.db.reputations.find? p = some row) :
    s.db.reputations.find? p = some row ∨
      ∃ (i : ℕ) (w : Worker σ) (work : Work) (stored : Option σ) (out : EngineOutput σ),
        s.calls[i]? = some (.worker w) ∧ w.phase = .committing work stored out ∧
          row = reputationRow work.profileId out := by
  cases stepped with
  | tick | request => exact .inl found
  | gate i m g phase st here gs =>
    obtain rfl | ⟨new, rfl⟩ := gs.puts <;> exact .inl found
  | starter i m b phase st here bs =>
    cases effect : st with
    | none =>
      rw [effect] at found
      exact .inl found
    | some x =>
      rw [effect] at found
      rcases bs.stmt_cases effect with ⟨rfl, -⟩ | ⟨ids, rfl, -⟩ | ⟨new, rfl, -⟩ <;> exact .inl found
  | worker i m w phase st here ws =>
    rcases ws.reputations with same | ⟨work, stored, out, committing, put⟩
    · exact .inl (same ▸ found)
    · have found' : (s.db.reputations.put (reputationRow work.profileId out)).find? p = some row :=
        put ▸ found
      rw [Table.find?_put] at found'
      split at found'
      · exact .inr ⟨i, w, work, stored, out, here, committing, (Option.some.inj found').symm⟩
      · exact .inl found'

/-- The tables, and what the runners have in hand, if every answer leaves a good row. -/
structure State.Showing (P : ReputationRow σ → Prop) (s : State σ) : Prop where
  rows : ∀ p row, s.db.reputations.find? p = some row → P row
  read : ∀ (i : ℕ) (w : Worker σ) work stored, s.calls[i]? = some (.worker w) →
    w.phase = .processing work stored → ∀ st ∈ stored, ∃ row, P row ∧ row.state = st
  answered : ∀ (i : ℕ) (w : Worker σ) work stored out, s.calls[i]? = some (.worker w) →
    w.phase = .committing work stored out → P (reputationRow work.profileId out)

variable {P : ReputationRow σ → Prop} {given : Work → Option σ → EngineOutput σ → Prop}

theorem State.Showing.step {s s' : State σ} {a : Action σ} (h : s.Showing P)
    (good : ∀ work stored out, (∀ st ∈ stored, ∃ row, P row ∧ row.state = st) →
      given work stored out → P (reputationRow work.profileId out))
    (step : s.step cfg a = some s') (answers : EngineAnswers given s a) : s'.Showing P where
  rows p row found := by
    rcases (State.stepped step).reputation found with old | ⟨i, w, work, stored, out, there, at_, rfl⟩
    · exact h.rows p row old
    · exact h.answered i w work stored out there at_
  read j w work stored there processing := by
    rcases (State.stepped step).worker_cases there with
      old | ready | ⟨m, w₀, phase, st, rfl, here, ws, rfl⟩
    · exact h.read j w work stored old processing
    · cases ready.symm.trans processing
    · -- what has been read is on file
      intro st member
      rw [ws.processing processing] at member
      obtain ⟨row, found, rfl⟩ := Option.map_eq_some_iff.mp member
      exact ⟨row, h.rows _ row found, rfl⟩
  answered j w work stored out there committing := by
    rcases (State.stepped step).worker_cases there with
      old | ready | ⟨m, w₀, phase, st, rfl, here, ws, rfl⟩
    · exact h.answered j w work stored out old committing
    · cases ready.symm.trans committing
    · obtain ⟨rfl, processing⟩ := ws.committing committing
      exact good work stored out (h.read j w₀ work stored here processing)
        (answers w₀ work stored here processing)

end

/-! ### Rows as renderings -/

variable {K : Type} [Field K] [LinearOrder K] (E : ReputationOps K)

variable {E} [IsStrictOrderedRing K]

/-- The vendored engine at any clock, for a profile of a batch; the stored state comes back from its
column with its tags in any order. -/
def VendoredGives (E : ReputationOps K) (work : Work) (stored : Option (ReputationState K))
    (out : EngineOutput (ReputationState K)) : Prop :=
  ∃ (now : Risk.DateTime) (column : Column K),
    processReputation E now (engineInput work.profileId work.rows (stored.map column.read)) =
      .output out

def sampleSettings : Config (ReputationState ℚ) where
  pairLock rater target := rater * 1000 + target
  startLock := -1
  totalOf state := state.totalReviews

/-- The engine says nothing in the step. -/
def Action.silent {σ : Type} : Action σ → Bool
  | .act _ (.engine (.output _)) => false
  | _ => true

/-- The vendored engine answers a runner, with the state as JSONB orders it, and the runner
commits. -/
def State.vendored (s : State (ReputationState ℚ)) (i : ℕ) : Option (State (ReputationState ℚ)) :=
  match s.calls[i]? with
  | some (.worker ⟨_, .processing work stored⟩) =>
    (s.step sampleSettings (.act i (.engine (processReputation sampleOps ⟨0, 0⟩
      (engineInput work.profileId work.rows (stored.map (jsonbColumn ℚ).read)))))).bind
        fun s => s.step sampleSettings (.act i (.reply .ok))
  | _ => none

abbrev SampleRun : State (ReputationState ℚ) → Prop :=
  State.Reachable sampleSettings (EngineAnswers (VendoredGives sampleOps))

theorem SampleRun.vendored {s s' : State (ReputationState ℚ)} {i : ℕ} (run : SampleRun s)
    (h : s.vendored i = some s') : SampleRun s' := by
  unfold State.vendored at h
  split at h
  next batchId work stored there =>
    obtain ⟨t, asked, committed⟩ := Option.bind_eq_some_iff.mp h
    refine Runs.Reachable.next (Runs.Reachable.next run asked ?_) committed trivial
    cases answer : processReputation sampleOps ⟨0, 0⟩
        (engineInput work.profileId work.rows (stored.map (jsonbColumn ℚ).read)) with
    | output out =>
      intro w work' stored' here processing
      cases there.symm.trans here
      cases processing
      exact ⟨⟨0, 0⟩, jsonbColumn ℚ, answer⟩
    | error | raised => trivial
  next => cases h

end DostReview.Review
