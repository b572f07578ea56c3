import DostReview.Review.Progress

/-!
# Profiles in one batch

`run_batch` with an engine that may do anything, as a function of its input, while no
statement fails but the commits of outputs that the database refuses. How a profile ends is
then a function of its own claimed reviews and its own reputation.
-/
namespace DostReview.Review

variable {σ : Type} {cfg : Config σ} {db start : Db σ} {v : View σ} {m : Move σ}
  {st : Option (Stmt σ)} {rows : List ReviewRow} {log : List (Closing σ)} {stats : Stats}

deriving instance DecidableEq for EngineOutput
deriving instance DecidableEq for EngineOutcome

/-! ### The engine -/

/-- `engine_input` -/
structure EngineInput (σ : Type) where
  profileId : Uuid
  about : String := ""
  reviews : List (String × Time)
  state : Option σ

def engineInput (profileId : Uuid) (rows : List ReviewRow) (stored : Option σ) : EngineInput σ where
  profileId := profileId
  reviews := rows.map fun r => (r.reviewText, r.createdAt)
  state := stored

section

variable (process : EngineInput σ → EngineOutcome σ) (refused : Uuid → EngineOutput σ → Bool)

/-- The runner's moves with this engine, where only the commits of refused outputs fail. -/
def Move.Behaves (phase : WorkerPhase σ) : Move σ → Prop
  | .crash => False
  | .claim _ _ r => r = .ok
  | .reply r =>
    match phase with
    -- the transaction of a profile whose output the database refuses is rolled back
    | .committing w _ out => if refused w.profileId out then ∃ e, r = .failed e else r = .ok
    | _ => r = .ok
  | .engine outcome =>
    match phase with
    | .processing w stored => outcome = process (engineInput w.profileId w.rows stored)
    | _ => True
  | _ => True

/-- No other runner takes a step, and this one behaves. -/
def Isolated (i : ℕ) (s : State σ) : Action σ → Prop
  | .act j m =>
    match s.calls[j]? with
    | some (.worker w) => j = i ∧ m.Behaves process refused w.phase
    | _ => True
  | _ => True

def EngineOutcome.ending (profileId : Uuid) : EngineOutcome σ → Ending σ
  | output out => if refused profileId out then .settled true else .committed out
  | error willRetry => .settled (willRetry.getD true)
  | raised _ => .settled true

/-- The engine's answer for these reviews and the reputation at the claim. -/
def answer (start : Db σ) (profileId : Uuid) (rows : List ReviewRow) : EngineOutcome σ :=
  process (engineInput profileId rows ((start.reputations.find? profileId).map (·.state)))

/-- How a profile with these reviews ends. -/
def expected (start : Db σ) (profileId : Uuid) (rows : List ReviewRow) : Ending σ :=
  (answer process start profileId rows).ending refused profileId

/-- The engine is given the reputation as it was at the claim. -/
def WorkerPhase.Fed (start : Db σ) : WorkerPhase σ → Prop
  | .processing w stored => stored = (start.reputations.find? w.profileId).map (·.state)
  | .committing w _ out => answer process start w.profileId w.rows = .output out
  | _ => True

end

variable {process : EngineInput σ → EngineOutcome σ} {refused : Uuid → EngineOutput σ → Bool}

theorem Move.Behaves.transient {phase : WorkerPhase σ} (h : m.Behaves process refused phase) :
    m.Transient := by
  cases m with
  | crash => exact h
  | clock | onboard | engine | uuid => trivial
  | claim skipped ids r =>
    obtain rfl : r = .ok := h
    trivial
  | reply r =>
    cases r with
    | ok | failed => trivial
    | lost e =>
      simp only [Move.Behaves] at h
      split at h
      · split at h
        · obtain ⟨_, same⟩ := h
          cases same
        · cases h
      · cases h

theorem Isolated.alone {i : ℕ} {s : State σ} {a : Action σ} (h : Isolated process refused i s a) :
    Alone i s a := by
  cases a with
  | tick | request => trivial
  | act j m =>
    cases here : s.calls[j]? with
    | none => simp [Alone, here]
    | some c =>
      cases c with
      | gate | starter => simp [Alone, here]
      | worker w =>
        simp only [Isolated, Alone, here] at h ⊢
        exact ⟨h.1, h.2.transient⟩

theorem answer_of_behaves {w : Work} {stored : Option σ} {outcome : EngineOutcome σ}
    (h : (Move.engine outcome).Behaves process refused (.processing w stored))
    (fed : (WorkerPhase.processing w stored).Fed process start) :
    answer process start w.profileId w.rows = outcome := by
  obtain rfl : stored = _ := fed
  exact Eq.symm h

theorem fed_nextProfile (start : Db σ) (rest : List (Uuid × List ReviewRow)) (stats : Stats) :
    (nextProfile rest stats).Fed process start := by
  cases rest <;> trivial

theorem fed_settle (start : Db σ) (w : Work) (todo : List ReviewRow) (willRetry handler : Bool) :
    (settle w todo willRetry handler).Fed process start := by
  cases todo with
  | nil => exact fed_nextProfile start _ _
  | cons => trivial

/-! ### One step -/

section

variable (process refused cfg) (i : ℕ) (start : Db σ) (rows : List ReviewRow)

/-- Every profile so far has ended as expected. -/
structure Follows (x : State σ × List (Closing σ)) : Prop extends InBatch cfg i start rows x where
  endings : ∀ c ∈ x.2, c.ending = expected process refused start c.profileId c.rows
  fed : ∀ w, x.1.calls[i]? = some (.worker w) → w.phase.Fed process start

end

/-- What the reading of a reputation gives is what was there at the claim. -/
theorem Between.stored {w : Work} (h : Between cfg start rows db log w.groups w.stats)
    (distinct : (rows.map (·.id)).Nodup) :
    db.reputations.find? w.profileId = start.reputations.find? w.profileId := by
  obtain ⟨-, closed, -⟩ := groups_in_hand distinct h.groups
  exact h.wrote.unwritten _ fun c hc _ _ => (closed c hc).1

theorem expected_of_answer {outcome : EngineOutcome σ} {w : Work}
    (answered : answer process start w.profileId w.rows = outcome) :
    expected process refused start w.profileId w.rows = outcome.ending refused w.profileId := by
  rw [expected, answered]

theorem expected_of_failed {w : Work} {stored : Option σ} {out : EngineOutput σ} {e : String}
    (behaves : (Move.reply (.failed e)).Behaves process refused (.committing w stored out))
    (answered : answer process start w.profileId w.rows = .output out) :
    expected process refused start w.profileId w.rows = .settled true := by
  rw [expected_of_answer answered, EngineOutcome.ending]
  simp only [Move.Behaves] at behaves
  split at behaves
  next refusal => rw [if_pos refusal]
  next => cases behaves

theorem expected_of_ok {w : Work} {stored : Option σ} {out : EngineOutput σ}
    (behaves : (Move.reply .ok).Behaves process refused (.committing w stored out))
    (answered : answer process start w.profileId w.rows = .output out) :
    expected process refused start w.profileId w.rows = .committed out := by
  rw [expected_of_answer answered, EngineOutcome.ending]
  simp only [Move.Behaves] at behaves
  split at behaves
  next =>
    obtain ⟨_, same⟩ := behaves
    cases same
  next accepted => rw [if_neg accepted]

/-- An entry is added for the profile in hand. -/
theorem endings_snoc {w : Work} {e : Ending σ}
    (endings : ∀ c ∈ log, c.ending = expected process refused start c.profileId c.rows)
    (same : expected process refused start w.profileId w.rows = e) :
    ∀ c ∈ log ++ [w.closing e],
      c.ending = expected process refused start c.profileId c.rows := by
  intro c hc
  rcases List.mem_append.mp hc with old | new
  · exact endings c old
  · obtain rfl := List.mem_singleton.mp new
    exact same.symm

theorem Worker.Smooth.follows {w : Worker σ} {phase : WorkerPhase σ}
    (step : w.Smooth cfg v m phase st) (distinct : (rows.map (·.id)).Nodup)
    (progress : Progress cfg start rows v.db log w.phase)
    (behaves : m.Behaves process refused w.phase) (fed : w.phase.Fed process start)
    (endings : ∀ c ∈ log, c.ending = expected process refused start c.profileId c.rows) :
    (∀ c ∈ w.phase.closes m log, c.ending = expected process refused start c.profileId c.rows) ∧
      phase.Fed process start := by
  cases step with
  | claimed skipped ids here =>
    rw [here] at progress
    exact progress.elim
  | read work here =>
    rw [here] at progress ⊢
    refine ⟨endings, ?_⟩
    -- no profile closed before has written this reputation
    exact congrArg _ (Between.stored progress distinct)
  | output work stored out here =>
    rw [here] at behaves fed ⊢
    exact ⟨endings, answer_of_behaves behaves fed⟩
  | engineError work stored willRetry here =>
    rw [here] at behaves fed ⊢
    have answered := answer_of_behaves behaves fed
    exact ⟨endings_snoc endings (expected_of_answer answered), fed_settle start _ _ _ _⟩
  | committed work stored out here =>
    rw [here] at behaves fed ⊢
    exact ⟨endings_snoc endings (expected_of_ok behaves fed), fed_nextProfile start _ _⟩
  | settled work row todo willRetry handler here =>
    rw [here]
    refine ⟨?_, fed_settle start _ _ _ _⟩
    cases handler <;> exact endings
  | completed stats here | marked e here | requeued here =>
    rw [here]
    exact ⟨endings, trivial⟩

/-- A step of the runner adds the expected ending, if it adds one. -/
theorem Worker.Turn.follows {w : Worker σ} {phase : WorkerPhase σ} (turn : w.Turn cfg v m phase st)
    (distinct : (rows.map (·.id)).Nodup) (progress : Progress cfg start rows v.db log w.phase)
    (behaves : m.Behaves process refused w.phase) (fed : w.phase.Fed process start)
    (endings : ∀ c ∈ log, c.ending = expected process refused start c.profileId c.rows) :
    (∀ c ∈ w.phase.closes m log, c.ending = expected process refused start c.profileId c.rows) ∧
      phase.Fed process start := by
  cases turn with
  | past _ _ _ isOver same =>
    refine ⟨by rw [same]; exact endings, ?_⟩
    cases phase with
    | failing | requeueing | returned | gone => trivial
    | _ => exact isOver.elim
  | unread work e here | resettled work row todo willRetry e here =>
    -- only the commit of a profile fails here
    rw [here] at behaves
    cases behaves
  | raised work stored e here =>
    rw [here] at behaves fed ⊢
    have answered := answer_of_behaves behaves fed
    exact ⟨endings_snoc endings (expected_of_answer answered), fed_settle start _ _ _ _⟩
  | uncommitted work stored out e here =>
    rw [here] at behaves fed ⊢
    exact ⟨endings_snoc endings (expected_of_failed behaves fed), fed_settle start _ _ _ _⟩
  | smooth _ _ _ step => exact step.follows distinct progress behaves fed endings

theorem Follows.step {i : ℕ} {x y : State σ × List (Closing σ)} {a : Action σ}
    (h : Follows cfg process refused i start rows x) (distinct : (rows.map (·.id)).Nodup)
    (step : Runs.recorded (State.step cfg) (noteEndings i) x a = some y)
    (isolated : Isolated process refused i x.1 a) : Follows cfg process refused i start rows y := by
  have batch := h.toInBatch.step distinct step isolated.alone
  obtain ⟨s, log⟩ := x
  obtain ⟨s', log'⟩ := y
  obtain ⟨step, rfl⟩ := Runs.recorded_eq_some.mp step
  obtain ⟨w, here, progress⟩ := h.running
  rcases isolated.alone.step h.sound step here with ⟨here', -, same⟩ |
    ⟨m, phase, st, rfl, -, turn, here', -, noted⟩
  · constructor
    · exact batch
    · rw [same]
      exact h.endings
    · intro w' there
      exact h.fed w' (here.trans (here'.symm.trans there))
  · have behaves : m.Behaves process refused w.phase := by
      simp only [Isolated, here] at isolated
      exact isolated.2
    obtain ⟨endings, fed⟩ := turn.follows distinct progress behaves (h.fed w here) h.endings
    constructor
    · exact batch
    · rw [noted]
      exact endings
    · intro w' there
      cases here'.symm.trans there
      exact fed

theorem Follows.run {s₀ s₁ : State σ} {i : ℕ} {batchId : Uuid} {skipped ids : List Uuid}
    {x : State σ × List (Closing σ)} (sound : s₀.Sound)
    (ready : s₀.calls[i]? = some (.worker ⟨batchId, .ready⟩))
    (claimed : s₀.step cfg (.act i (.claim skipped ids .ok)) = some s₁)
    (run : State.BatchRun cfg (Isolated process refused i) i s₁ x) :
    Follows cfg process refused i s₀.db (claimedRows s₀.db batchId ids) x := by
  obtain ⟨distinct, here, first⟩ := InBatch.claimed sound ready claimed
  refine Runs.Reachable.invariant ?_ ?_ run
  · rintro ⟨s, log⟩ ⟨same, none⟩
    obtain rfl : s = s₁ := same
    obtain rfl : log = [] := none
    refine ⟨first, by simp, fun w there => ?_⟩
    cases here.symm.trans there
    exact fed_nextProfile _ _ _
  · intro x a y _ h step isolated
    exact h.step distinct step isolated

/-! ### Finished batches -/

/-- The claimed reviews of a profile. -/
def rowsOf (profileId : Uuid) (rows : List ReviewRow) : List ReviewRow :=
  rows.filter fun row => row.targetProfileId = profileId

def idsOf (db : Db σ) (profileId : Uuid) (ids : List Uuid) : List Uuid :=
  ids.filter fun id => (db.reviews.find? id).any (·.targetProfileId = profileId)

def Writes (log : List (Closing σ)) (profileId : Uuid) : Prop :=
  ∃ c ∈ log, c.profileId = profileId ∧ ∃ out, c.ending = .committed out

/-- A profile of a finished batch: its reputation is written in the one transaction that commits
all its reviews, or it stays and each of them has one more retry. -/
structure EndsWhole (start db : Db σ) (log : List (Closing σ)) (profileId : Uuid)
    (rows : List ReviewRow) : Prop where
  once : (log.map (·.profileId)).count profileId = 1
  whole : ∀ c ∈ log, c.profileId = profileId → c.rows = rows
  written_iff : Writes log profileId ↔
    ∀ row ∈ rows, ∃ r, db.reviews.find? row.id = some r ∧ r.status = .committed
  written : ∀ c ∈ log, c.profileId = profileId → ∀ out, c.ending = .committed out →
    db.reputations.find? profileId = some (reputationRow profileId out)
  unwritten : ¬Writes log profileId →
    db.reputations.find? profileId = start.reputations.find? profileId ∧
      ∀ row ∈ rows, Left db row (.gated, row.retryCount + 1) ∨
        Left db row (.failed, row.retryCount + 1)

/-- Only the profiles of these rows have been written, and of the other accepted reviews none
has been moved but by a requeue. -/
structure Spares (start db : Db σ) (rows : List ReviewRow) : Prop where
  reputations : ∀ profileId, (∀ row ∈ rows, row.targetProfileId ≠ profileId) →
    db.reputations.find? profileId = start.reputations.find? profileId
  reviews : ∀ id r, start.reviews.find? id = some r → r.Accepted → id ∉ rows.map (·.id) →
    ∃ r', db.reviews.find? id = some r' ∧ Swept r r'

theorem Between.spares (h : Between cfg start rows db log [] stats) : Spares start db rows where
  reputations profileId foreign := by
    apply h.wrote.unwritten
    intro c hc _ _ same
    have group : c.group ∈ groupByTarget rows := by
      rw [← h.groups]
      exact List.mem_append_left _ (List.mem_map_of_mem hc)
    obtain ⟨row, mem, target⟩ := target_of_group group
    exact foreign row mem (target.trans same)
  reviews := h.stand.others

/-- The reputation after an ending. -/
def Ending.reputation (profileId : Uuid) (before : Option (ReputationRow σ)) :
    Ending σ → Option (ReputationRow σ)
  | committed out => some (reputationRow profileId out)
  | settled _ => before
  | resettled _ _ => before

theorem Between.profileIds (h : Between cfg start rows db log [] stats) :
    (log.map (·.profileId)).Nodup := by
  have keys := groupByTarget_nodup rows
  rw [← h.groups, List.append_nil, List.map_map] at keys
  exact keys

theorem Between.only (h : Between cfg start rows db log [] stats) {c c' : Closing σ}
    (hc : c ∈ log) (hc' : c' ∈ log) (same : c'.profileId = c.profileId) : c' = c :=
  List.inj_on_of_nodup_map h.profileIds hc' hc same

/-- A profile of the batch has a claimed review. -/
theorem Between.exists_row (h : Between cfg start rows db log [] stats) {c : Closing σ}
    (hc : c ∈ log) : ∃ row, row ∈ c.rows := by
  have groups : log.map (·.group) = groupByTarget rows := by simpa using h.groups
  have group : c.group ∈ groupByTarget rows := by
    rw [← groups]
    exact List.mem_map_of_mem hc
  obtain ⟨row, mem, target⟩ := target_of_group group
  refine ⟨row, ?_⟩
  rw [closing_rows groups hc]
  exact List.mem_filter.mpr ⟨mem, decide_eq_true target⟩

theorem Between.reputation (h : Between cfg start rows db log [] stats) {c : Closing σ}
    (hc : c ∈ log) : db.reputations.find? c.profileId =
      c.ending.reputation c.profileId (start.reputations.find? c.profileId) := by
  cases ending : c.ending with
  | committed out => exact h.wrote.written c hc out ending
  | settled | resettled =>
    apply h.wrote.unwritten
    intro c' hc' out committed same
    obtain rfl := h.only hc hc' same
    cases ending.symm.trans committed

theorem Ending.final_uncommitted (cfg : Config σ) {e : Ending σ}
    (uncommitted : ∀ out, e ≠ .committed out) (row : ReviewRow) :
    e.final cfg row = (.gated, row.retryCount + 1) ∨
      e.final cfg row = (.failed, row.retryCount + 1) := by
  cases retry : e.retry with
  | none =>
    cases e with
    | committed out => exact absurd rfl (uncommitted out)
    | settled | resettled => cases retry
  | some willRetry =>
    simp only [final, retry]
    split
    · exact .inr rfl
    · exact .inl rfl

theorem Ending.final_status (cfg : Config σ) {e : Ending σ} (row : ReviewRow)
    (h : (e.final cfg row).1 = .committed) : ∃ out, e = .committed out := by
  by_contra uncommitted
  rcases Ending.final_uncommitted cfg (not_exists.mp uncommitted) row with final | final <;>
    rw [final] at h <;> cases h

theorem Between.writes_iff (h : Between cfg start rows db log [] stats) {c : Closing σ}
    (hc : c ∈ log) : Writes log c.profileId ↔ ∃ out, c.ending = .committed out := by
  constructor
  · rintro ⟨c', hc', same, ending⟩
    obtain rfl := h.only hc hc' same
    exact ending
  · intro ending
    exact ⟨c, hc, rfl, ending⟩

theorem Between.committed_iff (h : Between cfg start rows db log [] stats) {c : Closing σ}
    (hc : c ∈ log) : (∃ out, c.ending = .committed out) ↔
      ∀ row ∈ c.rows, ∃ r, db.reviews.find? row.id = some r ∧ r.status = .committed := by
  have left := h.stand.left c hc
  constructor
  · rintro ⟨out, ending⟩ row mem
    obtain ⟨r, found, status, -⟩ := left row mem
    rw [ending] at status
    exact ⟨r, found, status⟩
  · intro committed
    -- a profile has a claimed review, so the statement is not about nothing
    obtain ⟨row, mem⟩ := h.exists_row hc
    obtain ⟨r, found, status, -⟩ := left row mem
    obtain ⟨r', found', done⟩ := committed row mem
    cases found.symm.trans found'
    exact Ending.final_status cfg row (status.symm.trans done)

theorem Between.endsWhole (h : Between cfg start rows db log [] stats) {c : Closing σ}
    (hc : c ∈ log) : EndsWhole start db log c.profileId c.rows := by
  constructor
  · exact List.count_eq_one_of_mem h.profileIds (List.mem_map_of_mem hc)
  · intro c' hc' same
    rw [h.only hc hc' same]
  · exact (h.writes_iff hc).trans (h.committed_iff hc)
  · intro c' hc' same out ending
    obtain rfl := h.only hc hc' same
    exact h.wrote.written c' hc' out ending
  · intro unwritten
    constructor
    · apply h.wrote.unwritten
      intro c' hc' out ending same
      exact unwritten ⟨c', hc', same, out, ending⟩
    · intro row mem
      have final := h.stand.left c hc row mem
      have uncommitted := not_exists.mp (mt (h.writes_iff hc).mpr unwritten)
      rcases Ending.final_uncommitted cfg uncommitted row with eq | eq
      · exact .inl (eq ▸ final)
      · exact .inr (eq ▸ final)

theorem Follows.closing {i : ℕ} {s : State σ}
    (h : Follows cfg process refused i start rows (s, log))
    (finished : Between cfg start rows s.db log [] stats) {p : Uuid}
    (member : ∃ row ∈ rows, row.targetProfileId = p) :
    ∃ c ∈ log, c.profileId = p ∧ c.rows = rowsOf p rows ∧
      c.ending = expected process refused start p (rowsOf p rows) := by
  have groups : log.map (·.group) = groupByTarget rows := by simpa using finished.groups
  obtain ⟨row, claimed, rfl⟩ := member
  obtain ⟨c, hc, mem⟩ := closing_of_row groups claimed
  have rows_eq := closing_rows groups hc
  have target : row.targetProfileId = c.profileId := by
    rw [rows_eq] at mem
    simpa using (List.mem_filter.mp mem).2
  rw [target]
  refine ⟨c, hc, rfl, rows_eq, ?_⟩
  rw [h.endings c hc, rows_eq]
  rfl

/-- What is claimed of a profile does not depend on what else is claimed. -/
theorem rowsOf_claimedRows (db : Db σ) (batchId p : Uuid) (ids : List Uuid) :
    rowsOf p (claimedRows db batchId ids) = claimedRows db batchId (idsOf db p ids) := by
  have claimed : ∀ ids : List Uuid, claimedRows db batchId ids = ids.filterMap fun id =>
      (db.reviews.find? id).map fun r =>
        { r with status := .processing, batchId := some batchId } := by
    intro ids
    apply List.filterMap_congr
    intro id taken
    cases found : db.reviews.find? id with
    | none => rfl
    | some r => simp [Stmt.onReview, Table.key_of_find? found, taken]
  rw [claimed, claimed, rowsOf, idsOf, List.filter_filterMap, List.filterMap_filter]
  apply List.filterMap_congr
  intro id _
  cases found : db.reviews.find? id with
  | none => simp
  | some r => by_cases target : r.targetProfileId = p <;> simp [target]

/-- What a finished batch makes of a profile, as a function of what the claim found of it. -/
theorem Follows.profile {i : ℕ} {s : State σ}
    (h : Follows cfg process refused i start rows (s, log))
    (finished : Between cfg start rows s.db log [] stats) {p : Uuid}
    (member : ∃ row ∈ rows, row.targetProfileId = p) :
    (∀ row ∈ rowsOf p rows,
      Left s.db row ((expected process refused start p (rowsOf p rows)).final cfg row)) ∧
      s.db.reputations.find? p = (expected process refused start p (rowsOf p rows)).reputation p
        (start.reputations.find? p) ∧
      EndsWhole start s.db log p (rowsOf p rows) := by
  obtain ⟨c, hc, rfl, whole, ending⟩ := h.closing finished member
  rw [← whole] at ending ⊢
  rw [← ending]
  exact ⟨finished.stand.left c hc, finished.reputation hc, finished.endsWhole hc⟩

/-- Whatever the engine does for one profile leaves the others alone: a profile of the batch ends
as in a batch that claims only its reviews, all of them committed in one transaction with its
reputation, or each of them given back or dead-lettered. -/
theorem profiles_isolated {ok : State σ → Action σ → Prop} {s₀ s₁ s t₁ t : State σ} {i : ℕ}
    {batchId p : Uuid} {skipped skipped' ids : List Uuid} {log' : List (Closing σ)} {stats' : Stats}
    (reachable : State.ReachableIdle cfg ok s₀)
    (ready : s₀.calls[i]? = some (.worker ⟨batchId, .ready⟩))
    (claimed : s₀.step cfg (.act i (.claim skipped ids .ok)) = some s₁)
    (run : State.BatchRun cfg (Isolated process refused i) i s₁ (s, log))
    (returned : s.calls[i]? = some (.worker ⟨batchId, .completing stats⟩))
    (member : ∃ row ∈ claimedRows s₀.db batchId ids, row.targetProfileId = p)
    (claimed' : s₀.step cfg (.act i (.claim skipped' (idsOf s₀.db p ids) .ok)) = some t₁)
    (run' : State.BatchRun cfg (Isolated process refused i) i t₁ (t, log'))
    (returned' : t.calls[i]? = some (.worker ⟨batchId, .completing stats'⟩)) :
    (∀ row ∈ rowsOf p (claimedRows s₀.db batchId ids), ∃ r r',
      s.db.reviews.find? row.id = some r ∧ t.db.reviews.find? row.id = some r' ∧
        r.status = r'.status ∧ r.retryCount = r'.retryCount) ∧
      s.db.reputations.find? p = t.db.reputations.find? p ∧
      Spares s₀.db s.db (claimedRows s₀.db batchId ids) ∧
      Spares s₀.db t.db (rowsOf p (claimedRows s₀.db batchId ids)) ∧
      EndsWhole s₀.db s.db log p (rowsOf p (claimedRows s₀.db batchId ids)) := by
  have sound := State.sound_of_idle reachable
  -- both runs are compared with what is expected of the profile
  have together := Follows.run sound ready claimed run
  have apart := Follows.run sound ready claimed' run'
  rw [← rowsOf_claimedRows] at apart
  have finished := together.finished returned
  have finished' := apart.finished returned'
  have member' : ∃ row ∈ rowsOf p (claimedRows s₀.db batchId ids), row.targetProfileId = p := by
    obtain ⟨row, mem, target⟩ := member
    exact ⟨row, List.mem_filter.mpr ⟨mem, decide_eq_true target⟩, target⟩
  have own : rowsOf p (rowsOf p (claimedRows s₀.db batchId ids)) =
      rowsOf p (claimedRows s₀.db batchId ids) := by
    rw [rowsOf, rowsOf, List.filter_filter]
    simp only [Bool.and_self]
  obtain ⟨left, reputation, whole⟩ := together.profile finished member
  obtain ⟨left', reputation', -⟩ := apart.profile finished' member'
  rw [own] at left' reputation'
  refine ⟨fun row mem => ?_, reputation.trans reputation'.symm, finished.spares, finished'.spares,
    whole⟩
  obtain ⟨r, found, status, retries⟩ := left row mem
  obtain ⟨r', found', status', retries'⟩ := left' row mem
  exact ⟨r, r', found, found', status.trans status'.symm, retries.trans retries'.symm⟩

instance (r : Reply) : Decidable (∃ e, r = .failed e) :=
  decidable_of_iff (r.effect () = none) (by cases r <;> simp [Reply.effect])

instance [DecidableEq σ] (process : EngineInput σ → EngineOutcome σ)
    (refused : Uuid → EngineOutput σ → Bool) (phase : WorkerPhase σ) :
    ∀ m : Move σ, Decidable (m.Behaves process refused phase)
  | .crash => isFalse id
  | .clock => isTrue trivial
  | .onboard _ => isTrue trivial
  | .uuid _ _ => isTrue trivial
  | .claim _ _ r => inferInstanceAs (Decidable (r = .ok))
  | .engine outcome =>
    match phase with
    | .processing w stored =>
      inferInstanceAs (Decidable (outcome = process (engineInput w.profileId w.rows stored)))
    | .ready => isTrue trivial
    | .loading _ => isTrue trivial
    | .committing _ _ _ => isTrue trivial
    | .settling _ _ _ _ => isTrue trivial
    | .completing _ => isTrue trivial
    | .failing _ => isTrue trivial
    | .requeueing => isTrue trivial
    | .returned _ => isTrue trivial
    | .gone => isTrue trivial
  | .reply r =>
    match phase with
    | .committing w _ out =>
      inferInstanceAs
        (Decidable (if refused w.profileId out then ∃ e, r = .failed e else r = .ok))
    | .ready => inferInstanceAs (Decidable (r = .ok))
    | .loading _ => inferInstanceAs (Decidable (r = .ok))
    | .processing _ _ => inferInstanceAs (Decidable (r = .ok))
    | .settling _ _ _ _ => inferInstanceAs (Decidable (r = .ok))
    | .completing _ => inferInstanceAs (Decidable (r = .ok))
    | .failing _ => inferInstanceAs (Decidable (r = .ok))
    | .requeueing => inferInstanceAs (Decidable (r = .ok))
    | .returned _ => inferInstanceAs (Decidable (r = .ok))
    | .gone => inferInstanceAs (Decidable (r = .ok))

instance [DecidableEq σ] (process : EngineInput σ → EngineOutcome σ)
    (refused : Uuid → EngineOutput σ → Bool) (i : ℕ) (s : State σ) :
    ∀ a : Action σ, Decidable (Isolated process refused i s a)
  | .tick _ => isTrue trivial
  | .request _ => isTrue trivial
  | .act j m =>
    match h : s.calls[j]? with
    | some (.worker w) =>
      decidable_of_iff (j = i ∧ m.Behaves process refused w.phase) (by simp [Isolated, h])
    | some (.gate _) => isTrue (by simp [Isolated, h])
    | some (.starter _) => isTrue (by simp [Isolated, h])
    | none => isTrue (by simp [Isolated, h])

/-- The engine knows the profile 1 only. -/
def knowsOne (input : EngineInput ℕ) : EngineOutcome ℕ :=
  if input.profileId = 1 then .output (sampleOutput 0 1) else .raised "unknown profile"

def accepts (_ : Uuid) (_ : EngineOutput ℕ) : Bool := false

/-- The profile 1 is committed. -/
def commitsFirst : List (Action ℕ) :=
  [.act 3 (.reply .ok), .act 3 (.engine (.output (sampleOutput 0 1))), .act 3 (.reply .ok)]

/-- The engine raises for the profile 2, and its review is given back. -/
def givesBackSecond : List (Action ℕ) :=
  [.act 3 (.reply .ok), .act 3 (.engine (.raised "unknown profile")), .act 3 (.reply .ok)]

theorem profiles_isolated_first : ∃ (s₀ s₁ s t₁ t : State ℕ) (log log' : List (Closing ℕ)),
    Runs.perform (State.step defaults) .start
      (beforeClaim (sampleReview 7 2) ⟨8, 2, 3, "Slow", none, 0⟩) = some s₀ ∧
    s₀.step defaults (.act 3 (.claim [] [7, 8] .ok)) = some s₁ ∧
    Runs.performGuarded (Runs.recorded (State.step defaults) (noteEndings 3))
      (fun x a => Isolated knowsOne accepts 3 x.1 a) (s₁, []) (commitsFirst ++ givesBackSecond) =
        some (s, log) ∧
    s₀.step defaults (.act 3 (.claim [8] (idsOf s₀.db 1 [7, 8]) .ok)) = some t₁ ∧
    Runs.performGuarded (Runs.recorded (State.step defaults) (noteEndings 3))
      (fun x a => Isolated knowsOne accepts 3 x.1 a) (t₁, []) commitsFirst = some (t, log') ∧
    s.db.reputations.find? 1 = t.db.reputations.find? 1 ∧
    EndsWhole s₀.db s.db log 1 (rowsOf 1 (claimedRows s₀.db 77 [7, 8])) := by
  obtain ⟨s₀, before, ready, member, s₁, claimed, ⟨s, log⟩, run, returned, t₁, claimed', ⟨t, log'⟩,
      run', returned'⟩ :
      ∃ s₀, Runs.perform (State.step defaults) .start
          (beforeClaim (sampleReview 7 2) ⟨8, 2, 3, "Slow", none, 0⟩) = some s₀ ∧
        s₀.calls[3]? = some (.worker ⟨77, .ready⟩) ∧
        (∃ row ∈ claimedRows s₀.db 77 [7, 8], row.targetProfileId = 1) ∧
        ∃ s₁, s₀.step defaults (.act 3 (.claim [] [7, 8] .ok)) = some s₁ ∧
          ∃ x, Runs.performGuarded (Runs.recorded (State.step defaults) (noteEndings 3))
              (fun x a => Isolated knowsOne accepts 3 x.1 a) (s₁, [])
              (commitsFirst ++ givesBackSecond) = some x ∧
            x.1.calls[3]? = some (.worker ⟨77, .completing ⟨2, 1, 1, 0, 1⟩⟩) ∧
        ∃ t₁, s₀.step defaults (.act 3 (.claim [8] (idsOf s₀.db 1 [7, 8]) .ok)) = some t₁ ∧
          ∃ x, Runs.performGuarded (Runs.recorded (State.step defaults) (noteEndings 3))
              (fun x a => Isolated knowsOne accepts 3 x.1 a) (t₁, []) commitsFirst = some x ∧
            x.1.calls[3]? = some (.worker ⟨77, .completing ⟨1, 1, 0, 0, 1⟩⟩) :=
    ⟨_, rfl, rfl, ⟨_, List.mem_cons_self, rfl⟩, _, rfl, _, rfl, rfl, _, rfl, _, rfl, rfl⟩
  obtain ⟨-, reputation, -, -, whole⟩ := profiles_isolated (reachable_beforeClaim before) ready
    claimed (.performGuarded (.start ⟨rfl, rfl⟩) run) returned member claimed'
    (.performGuarded (.start ⟨rfl, rfl⟩) run') returned'
  exact ⟨s₀, s₁, s, t₁, t, log, log', before, claimed, run, claimed', run', reputation, whole⟩

end DostReview.Review
