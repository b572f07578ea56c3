import DostReview.Review.Isolation

/-!
# Batch after batch

Any number of batches, each run to its end without another runner in between, while calls of
the gate and of `start_batch` go on beside them and between them.
-/
namespace DostReview.Review

variable {σ κ : Type} {cfg : Config σ}

/-- A finished batch: what was fixed for it, the rows its claim found locked, the tables it found
and the rows it took. -/
structure Round (κ σ : Type) where
  given : κ
  skipped : List Uuid
  start : Db σ
  rows : List ReviewRow

/-- No runner takes a step but to record the end of its batch. -/
def Apart (s : State σ) : Action σ → Prop
  | .act j m =>
    match s.calls[j]? with
    | some (.worker w) => (∃ stats, w.phase = .completing stats) ∧ m = .reply .ok
    | _ => True
  | _ => True

instance : ∀ phase : WorkerPhase σ, Decidable (∃ stats, phase = .completing stats)
  | .completing stats => isTrue ⟨stats, rfl⟩
  | .ready | .loading _ | .processing _ _ | .committing _ _ _ | .settling _ _ _ _ | .failing _
  | .requeueing | .returned _ | .gone => isFalse nofun

instance : ∀ m : Move σ, Decidable (m = .reply .ok)
  | .reply .ok => isTrue rfl
  | .reply (.failed _) | .reply (.lost _) | .crash | .clock | .onboard _ | .engine _
  | .claim _ _ _ | .uuid _ _ => isFalse nofun

instance (s : State σ) : ∀ a : Action σ, Decidable (Apart s a)
  | .tick _ | .request _ => isTrue trivial
  | .act j m =>
    match here : s.calls[j]? with
    | some (.worker w) =>
      decidable_of_iff ((∃ stats, w.phase = .completing stats) ∧ m = .reply .ok)
        (by simp [Apart, here])
    | some (.gate _) | some (.starter _) | none => isTrue (by simp [Apart, here])

/-- The runs of whole batches from a state on, the steps of each of which meet a condition. -/
inductive State.Rounds (cfg : Config σ) (ok : κ → ℕ → State σ → Action σ → Prop) (s₀ : State σ) :
    List (Round κ σ) → State σ → Prop
  | start : Rounds cfg ok s₀ [] s₀
  | apart {rounds : List (Round κ σ)} {s s' : State σ} {a : Action σ} :
      Rounds cfg ok s₀ rounds s → s.step cfg a = some s' → Apart s a → Rounds cfg ok s₀ rounds s'
  | batch {rounds : List (Round κ σ)} {s s₁ t : State σ} (given : κ) {i : ℕ} {batchId : Uuid}
      {skipped ids : List Uuid} {log : List (Closing σ)} {stats : Stats} :
      Rounds cfg ok s₀ rounds s → s.calls[i]? = some (.worker ⟨batchId, .ready⟩) →
      s.step cfg (.act i (.claim skipped ids .ok)) = some s₁ →
      State.BatchRun cfg (ok given i) i s₁ (t, log) →
      t.calls[i]? = some (.worker ⟨batchId, .completing stats⟩) →
      Rounds cfg ok s₀ (rounds ++ [⟨given, skipped, s.db, claimedRows s.db batchId ids⟩]) t

variable {ok : κ → ℕ → State σ → Action σ → Prop} {s₀ s s' : State σ}
  {rounds : List (Round κ σ)}

theorem Apart.beside {a : Action σ} (apart : Apart s a) (sound : s.Sound)
    (step : s.step cfg a = some s') : Beside s.db s'.db := by
  cases a with
  | tick d =>
    cases step
    exact .refl s.db
  | request r =>
    cases step
    exact .refl s.db
  | act j m =>
    cases State.stepped step with
    | gate _ _ g phase st there gs => exact gs.beside (sound.gate there gs)
    | starter _ _ b phase st there bs => exact bs.beside s.db
    | worker _ _ w phase st there =>
      -- the final UPDATE is one of `batch_run`
      simp only [Apart, there] at apart
      obtain ⟨⟨stats, completing⟩, rfl⟩ := apart
      obtain ⟨w', st', moved, same⟩ := State.acted_worker there step
      simp only [Worker.advance, completing, Option.some.injEq, Prod.mk.injEq] at moved
      obtain ⟨-, rfl⟩ := moved
      rw [same]
      refine ⟨fun id r found _ => ⟨r, ?_, .inl rfl⟩, rfl⟩
      exact Stmt.find?_exec_of_found (by simp) found

theorem Apart.completing {i : ℕ} {batchId : Uuid} {stats : Stats}
    (there : s.calls[i]? = some (.worker ⟨batchId, .completing stats⟩)) :
    Apart s (.act i (.reply .ok)) := by
  simp only [Apart, there, and_true]
  exact ⟨stats, rfl⟩

/-- Some more steps between two batches. -/
theorem State.Rounds.between {t : State σ} (run : State.Rounds cfg ok s₀ rounds s)
    (later : Runs.Reachable (· = s) (State.step cfg) Apart t) :
    State.Rounds cfg ok s₀ rounds t := by
  induction later with
  | start same => exact same ▸ run
  | next _ step apart ih => exact .apart ih step apart

theorem State.Rounds.sound (alone : ∀ given i s a, ok given i s a → Alone i s a)
    (run : State.Rounds cfg ok s₀ rounds s) (sound : s₀.Sound) : s.Sound := by
  induction run with
  | start => exact sound
  | apart _ step _ ih => exact ih.step step
  | batch given _ ready claimed batch returned ih =>
    exact (InBatch.run (alone given _) ih ready claimed batch).sound

end DostReview.Review
