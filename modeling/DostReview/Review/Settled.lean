import DostReview.Review.Progress

/-!
# Settling every claimed review once

The statistics that `run_batch` returns against the rows it claimed. They agree unless an
UPDATE of `_handle_failed_reviews` fails inside the `try` block, where the exception handler
settles all reviews of the profile again: those settled before are counted twice, and
those that the engine told not to retry go back to `GATED`.
-/
namespace DostReview.Review

variable {σ : Type} {cfg : Config σ} {db start : Db σ} {rows : List ReviewRow}
  {log : List (Closing σ)} {stats : Stats}

/-- The claimed reviews that have a status now. -/
def numberOf (db : Db σ) (rows : List ReviewRow) (status : ReviewStatus) : ℕ :=
  rows.countP fun row => (db.reviews.find? row.id).any (·.status = status)

/-- What a batch returns and leaves of the rows it claimed, given how its profiles ended. -/
structure SettledOnce (rows : List ReviewRow) (log : List (Closing σ)) (db : Db σ) (stats : Stats) :
    Prop where
  adds : stats.totalReviews = stats.committed + stats.failed + stats.deadLettered
  committed : stats.committed = numberOf db rows .committed
  failed : stats.failed = numberOf db rows .gated
  deadLettered : stats.deadLettered = numberOf db rows .failed
  retries : ∀ row ∈ rows, ∃ r, db.reviews.find? row.id = some r ∧
    row.retryCount ≤ r.retryCount ∧ r.retryCount ≤ row.retryCount + 1
  refused : ∀ c ∈ log, c.ending.Refused → ∀ row ∈ rows, row.targetProfileId = c.profileId →
    ∃ r, db.reviews.find? row.id = some r ∧ r.status = .failed

/-- An UPDATE failed inside the `try` block after another of its profile had taken effect, or
where the engine forbids a retry that one of the reviews has left. -/
def Closing.Spoiled (cfg : Config σ) (c : Closing σ) : Prop :=
  match c.ending with
  | .resettled willRetry early =>
    early ≠ [] ∨ willRetry = false ∧ ∃ row ∈ c.rows, ¬DeadLetters cfg true row
  | _ => False

/-! ### The statistics -/

/-- How many reviews the statistics count as settled. -/
def Stats.settled (stats : Stats) : ℕ := stats.committed + stats.failed + stats.deadLettered

theorem settleAll_eq (willRetry : Bool) (rows : List ReviewRow) (stats : Stats) :
    settleAll cfg willRetry rows stats =
      { stats with
        failed := stats.failed + rows.countP fun row => ¬DeadLetters cfg willRetry row
        deadLettered :=
          stats.deadLettered + rows.countP fun row => DeadLetters cfg willRetry row } := by
  induction rows generalizing stats with
  | nil => rfl
  | cons row rows ih =>
    -- one review more in one of the two counts
    have one : settleAll cfg willRetry (row :: rows) stats =
        settleAll cfg willRetry rows (settleStats cfg willRetry row stats) := rfl
    rw [one, ih, settleStats]
    by_cases dead : DeadLetters cfg willRetry row
    · simp only [dead, if_true, List.countP_cons, not_true_eq_false, decide_false, decide_true]
      simp [Nat.add_assoc, Nat.add_comm 1]
    · simp only [dead, if_false, List.countP_cons, not_false_eq_true, decide_false, decide_true]
      simp [Nat.add_assoc, Nat.add_comm 1]

theorem settleAll_settled (willRetry : Bool) (rows : List ReviewRow) (stats : Stats) :
    (settleAll cfg willRetry rows stats).settled = stats.settled + rows.length := by
  have split := List.length_eq_countP_add_countP
    (fun row => decide (DeadLetters cfg willRetry row)) (l := rows)
  simp only [settleAll_eq, Stats.settled]
  simp only [decide_not, decide_eq_true_eq] at split ⊢
  omega

theorem settleAll_totalReviews (willRetry : Bool) (rows : List ReviewRow) (stats : Stats) :
    (settleAll cfg willRetry rows stats).totalReviews = stats.totalReviews := by
  rw [settleAll_eq]

namespace Ending

/-- How many reviews the statistics count a second time. -/
def again : Ending σ → ℕ
  | resettled _ early => early.length
  | _ => 0

theorem before_of_once {e : Ending σ} (once : e.again = 0) (stats : Stats) :
    e.before cfg stats = stats := by
  cases e with
  | committed | settled => rfl
  | resettled willRetry early =>
    obtain rfl := List.length_eq_zero_iff.mp once
    rfl

theorem tally_settled (e : Ending σ) (rows : List ReviewRow) (stats : Stats) :
    (e.tally cfg rows stats).settled = stats.settled + rows.length + e.again := by
  cases e with
  | committed out =>
    simp only [tally, retry, Stats.settled, again]
    omega
  | settled willRetry => exact settleAll_settled willRetry rows stats
  | resettled willRetry early =>
    -- the reviews settled early are counted in both rounds
    simp only [tally, retry, before, settleAll_settled, again]
    omega

theorem tally_totalReviews (e : Ending σ) (rows : List ReviewRow) (stats : Stats) :
    (e.tally cfg rows stats).totalReviews = stats.totalReviews := by
  cases e with
  | committed => rfl
  | settled => exact settleAll_totalReviews _ _ _
  | resettled => simp only [tally, retry, before, settleAll_totalReviews]

end Ending

/-- The reviews of a profile that end with a status. -/
def Closing.number (cfg : Config σ) (status : ReviewStatus) (c : Closing σ) : ℕ :=
  c.rows.countP fun row => (c.ending.final cfg row).1 = status

/-- Where no review is counted twice, the statistics count the final statuses. -/
theorem Closing.tally_number (cfg : Config σ) (c : Closing σ) (once : c.ending.again = 0)
    (stats : Stats) :
    (c.ending.tally cfg c.rows stats).committed = stats.committed + c.number cfg .committed ∧
      (c.ending.tally cfg c.rows stats).failed = stats.failed + c.number cfg .gated ∧
      (c.ending.tally cfg c.rows stats).deadLettered =
        stats.deadLettered + c.number cfg .failed := by
  cases retry : c.ending.retry with
  | none => simp [Ending.tally, retry, number, Ending.final]
  | some willRetry =>
    have status : ∀ row, (c.ending.final cfg row).1 =
        if DeadLetters cfg willRetry row then .failed else .gated := by
      intro row
      simp only [Ending.final, retry]
    have committed : c.number cfg .committed = 0 := by
      apply List.countP_eq_zero.mpr
      intro row _
      rw [status]
      split <;> simp
    have gated : c.number cfg .gated =
        c.rows.countP fun row => ¬DeadLetters cfg willRetry row := by
      apply List.countP_congr
      intro row _
      rw [status]
      split <;> simp [*]
    have failed : c.number cfg .failed =
        c.rows.countP fun row => DeadLetters cfg willRetry row := by
      apply List.countP_congr
      intro row _
      rw [status]
      split <;> simp [*]
    simp [Ending.tally, retry, Ending.before_of_once once, settleAll_eq, committed, gated, failed]

theorem tallies_cons (c : Closing σ) (log : List (Closing σ)) (stats : Stats) :
    tallies cfg (c :: log) stats = tallies cfg log (c.ending.tally cfg c.rows stats) := rfl

theorem tallies_settled (cfg : Config σ) (log : List (Closing σ)) (stats : Stats) :
    (tallies cfg log stats).settled = stats.settled + (log.map fun c => c.rows.length).sum +
      (log.map fun c => c.ending.again).sum := by
  induction log generalizing stats with
  | nil => rfl
  | cons c log ih =>
    simp only [tallies_cons, ih, Ending.tally_settled, List.map_cons, List.sum_cons]
    omega

theorem tallies_totalReviews (log : List (Closing σ)) (stats : Stats) :
    (tallies cfg log stats).totalReviews = stats.totalReviews := by
  induction log generalizing stats with
  | nil => rfl
  | cons c log ih => rw [tallies_cons, ih, Ending.tally_totalReviews]

theorem tallies_number (cfg : Config σ) {log : List (Closing σ)}
    (once : ∀ c ∈ log, c.ending.again = 0) (stats : Stats) :
    (tallies cfg log stats).committed = stats.committed + (log.map (·.number cfg .committed)).sum ∧
      (tallies cfg log stats).failed = stats.failed + (log.map (·.number cfg .gated)).sum ∧
      (tallies cfg log stats).deadLettered =
        stats.deadLettered + (log.map (·.number cfg .failed)).sum := by
  induction log generalizing stats with
  | nil => exact ⟨rfl, rfl, rfl⟩
  | cons c log ih =>
    obtain ⟨committed, failed, dead⟩ := c.tally_number cfg (once c List.mem_cons_self) stats
    obtain ⟨committed', failed', dead'⟩ := ih (fun c hc => once c (List.mem_cons_of_mem _ hc))
      (c.ending.tally cfg c.rows stats)
    simp only [tallies_cons, committed', failed', dead', committed, failed, dead, List.map_cons,
      List.sum_cons, Nat.add_assoc]
    exact ⟨trivial, trivial, trivial⟩

/-! ### The rows -/

/-- A count over the claimed rows is the sum of the counts over the profiles. -/
theorem countP_rows (groups : log.map (·.group) = groupByTarget rows) (p : ReviewRow → Bool) :
    rows.countP p = (log.map fun c => c.rows.countP p).sum := by
  rw [← (groupByTarget_perm rows).countP_eq, List.countP_flatMap, ← groups, List.map_map]
  rfl

theorem Stand.number (h : Stand cfg start rows db log [])
    (groups : log.map (·.group) = groupByTarget rows)
    (status : ReviewStatus) : numberOf db rows status = (log.map (·.number cfg status)).sum := by
  rw [numberOf, countP_rows groups]
  congr 1
  apply List.map_congr_left
  intro c hc
  apply List.countP_congr
  intro row hrow
  obtain ⟨r, found, same, -⟩ := h.left c hc row hrow
  simp [found, same]

theorem Ending.final_retries (cfg : Config σ) (e : Ending σ) (row : ReviewRow) :
    row.retryCount ≤ (e.final cfg row).2 ∧ (e.final cfg row).2 ≤ row.retryCount + 1 := by
  unfold final
  split
  · exact ⟨Nat.le_refl _, Nat.le_succ _⟩
  · exact ⟨Nat.le_succ _, Nat.le_refl _⟩

theorem Closing.once_of_unspoiled {c : Closing σ} (unspoiled : ¬c.Spoiled cfg) :
    c.ending.again = 0 := by
  obtain ⟨profileId, rows, e⟩ := c
  cases e with
  | committed | settled => rfl
  | resettled willRetry early =>
    apply List.length_eq_zero_iff.mpr
    by_contra some_
    exact unspoiled (.inl some_)

/-- The reviews of a profile that must not be retried, unless they were settled again. -/
theorem Closing.final_refused {c : Closing σ} (unspoiled : ¬c.Spoiled cfg)
    (refused : c.ending.Refused) {row : ReviewRow} (mem : row ∈ c.rows) :
    (c.ending.final cfg row).1 = .failed := by
  obtain ⟨profileId, rows, e⟩ := c
  cases e with
  | committed => exact refused.elim
  | settled willRetry =>
    obtain rfl : willRetry = false := refused
    simp [Ending.final, Ending.retry]
  | resettled willRetry early =>
    apply if_pos
    by_contra alive
    exact unspoiled (.inr ⟨refused, row, mem, alive⟩)

/-- The statistics of a finished batch, with what they count a second time. -/
theorem Between.settled (h : Between cfg start rows db log [] stats)
    (groups : log.map (·.group) = groupByTarget rows) :
    stats.totalReviews = rows.length ∧
      stats.settled = rows.length + (log.map fun c => c.ending.again).sum := by
  have all : rows.length = (log.map fun c => c.rows.length).sum := by
    have counted := countP_rows groups fun _ => true
    simpa only [List.countP_true] using counted
  rw [h.stats]
  constructor
  · rw [tallies_totalReviews]
  · rw [tallies_settled, ← all]
    exact congrArg (· + _) (Nat.zero_add _)

theorem Between.settledOnce (h : Between cfg start rows db log [] stats)
    (unspoiled : ∀ c ∈ log, ¬c.Spoiled cfg) : SettledOnce rows log db stats := by
  have groups : log.map (·.group) = groupByTarget rows := by simpa using h.groups
  have once : ∀ c ∈ log, c.ending.again = 0 :=
    fun c hc => Closing.once_of_unspoiled (unspoiled c hc)
  obtain ⟨committed, failed, dead⟩ := tallies_number cfg once { totalReviews := rows.length }
  rw [← h.stats] at committed failed dead
  constructor
  · obtain ⟨total, settled⟩ := h.settled groups
    have none : (log.map fun c => c.ending.again).sum = 0 := by
      apply List.sum_eq_zero_iff_forall_eq_nat.mpr
      intro n mem
      obtain ⟨c, hc, rfl⟩ := List.mem_map.mp mem
      exact once c hc
    rw [none] at settled
    exact total.trans settled.symm
  · rw [committed, h.stand.number groups, Nat.zero_add]
  · rw [failed, h.stand.number groups, Nat.zero_add]
  · rw [dead, h.stand.number groups, Nat.zero_add]
  · intro row claimed
    obtain ⟨c, hc, mem⟩ := closing_of_row groups claimed
    obtain ⟨r, found, -, retries⟩ := h.stand.left c hc row mem
    have bounds := c.ending.final_retries cfg row
    exact ⟨r, found, by omega, by omega⟩
  · intro c hc refused row claimed target
    have mem : row ∈ c.rows := by
      rw [closing_rows groups hc]
      exact List.mem_filter.mpr ⟨claimed, by simp [target]⟩
    obtain ⟨r, found, status, -⟩ := h.stand.left c hc row mem
    exact ⟨r, found, status.trans (c.final_refused (unspoiled c hc) refused mem)⟩

theorem Between.unspoiled (h : Between cfg start rows db log [] stats)
    (settled : SettledOnce rows log db stats) {c : Closing σ} (hc : c ∈ log) : ¬c.Spoiled cfg := by
  have groups : log.map (·.group) = groupByTarget rows := by simpa using h.groups
  -- the sum is right only if no review was counted twice
  have once : c.ending.again = 0 := by
    obtain ⟨total, sum⟩ := h.settled groups
    have adds : stats.totalReviews = stats.settled := settled.adds
    have none : (log.map fun c => c.ending.again).sum = 0 := by omega
    exact List.sum_eq_zero_iff_forall_eq_nat.mp none _ (List.mem_map_of_mem hc)
  intro spoiled
  unfold Closing.Spoiled at spoiled
  split at spoiled
  next willRetry early ending =>
    rcases spoiled with some_ | ⟨refused, row, mem, alive⟩
    · rw [ending] at once
      exact some_ (List.length_eq_zero_iff.mp once)
    · -- the handler has put the review back to `GATED`
      obtain ⟨r, found, status, -⟩ := h.stand.left c hc row mem
      have claimed := mem
      rw [closing_rows groups hc] at claimed
      obtain ⟨claimed, target⟩ := List.mem_filter.mp claimed
      have never : c.ending.Refused := by
        rw [ending]
        exact refused
      obtain ⟨r', found', failed⟩ := settled.refused c hc never row claimed (by simpa using target)
      cases found.symm.trans found'
      rw [failed, ending] at status
      simp [Ending.final, Ending.retry, alive] at status
  next => exact spoiled

/-! ### Every batch -/

/-- Whatever the engine answers and whichever statements fail without effect: when `run_batch`
returns, its statistics and the claimed rows agree and no refused review is given back, exactly
if no failure while settling has spoiled a profile. -/
theorem settled_once {ok : State σ → Action σ → Prop} {s₀ s₁ s : State σ} {i : ℕ} {batchId : Uuid}
    {skipped ids : List Uuid} (reachable : State.ReachableIdle cfg ok s₀)
    (ready : s₀.calls[i]? = some (.worker ⟨batchId, .ready⟩))
    (claimed : s₀.step cfg (.act i (.claim skipped ids .ok)) = some s₁)
    (run : State.BatchRun cfg (Alone i) i s₁ (s, log))
    (returned : s.calls[i]? = some (.worker ⟨batchId, .completing stats⟩)) :
    SettledOnce (claimedRows s₀.db batchId ids) log s.db stats ↔ ∀ c ∈ log, ¬c.Spoiled cfg := by
  have sound := State.sound_of_idle reachable
  have batch := InBatch.run (fun _ _ alone => alone) sound ready claimed run
  have finished := batch.finished returned
  constructor
  · exact fun settled c hc => finished.unspoiled settled hc
  · exact fun unspoiled => finished.settledOnce unspoiled

/-- The commit fails, and the handler gives both reviews back. -/
def failsToCommit : List (Action ℕ) :=
  [.act 3 (.reply .ok), .act 3 (.engine (.output (sampleOutput 0 2))),
    .act 3 (.reply (.failed "connection reset")), .act 3 (.reply .ok), .act 3 (.reply .ok)]

/-- The engine forbids a retry; the first review is dead-lettered, the UPDATE of the second
fails, and the handler gives both back. -/
def failsToSettle : List (Action ℕ) :=
  [.act 3 (.reply .ok), .act 3 (.engine (.error (some false))), .act 3 (.reply .ok),
    .act 3 (.reply (.failed "connection reset")), .act 3 (.reply .ok), .act 3 (.reply .ok)]

theorem settled_once_commit : ∃ (s₀ s₁ s : State ℕ) (log : List (Closing ℕ)),
    Runs.perform (State.step defaults) .start
      (beforeClaim (sampleReview 7 2) (sampleReview 8 3)) = some s₀ ∧
    s₀.step defaults (.act 3 (.claim [] [7, 8] .ok)) = some s₁ ∧
    Runs.performGuarded (Runs.recorded (State.step defaults) (noteEndings 3))
      (fun x a => Alone 3 x.1 a) (s₁, []) failsToCommit = some (s, log) ∧
    SettledOnce (claimedRows s₀.db 77 [7, 8]) log s.db ⟨2, 0, 2, 0, 0⟩ := by
  obtain ⟨s₀, before, ready, s₁, claimed, ⟨s, log⟩, run, returned, rows, ended⟩ :
      ∃ s₀, Runs.perform (State.step defaults) .start
          (beforeClaim (sampleReview 7 2) (sampleReview 8 3)) = some s₀ ∧
        s₀.calls[3]? = some (.worker ⟨77, .ready⟩) ∧
        ∃ s₁, s₀.step defaults (.act 3 (.claim [] [7, 8] .ok)) = some s₁ ∧
          ∃ x, Runs.performGuarded (Runs.recorded (State.step defaults) (noteEndings 3))
              (fun x a => Alone 3 x.1 a) (s₁, []) failsToCommit = some x ∧
            x.1.calls[3]? = some (.worker ⟨77, .completing ⟨2, 0, 2, 0, 0⟩⟩) ∧
            ∃ rows, x.2 = [⟨1, rows, .settled true⟩] :=
    ⟨_, rfl, rfl, _, rfl, _, rfl, rfl, _, rfl⟩
  refine ⟨s₀, s₁, s, log, before, claimed, run, ?_⟩
  apply (settled_once (reachable_beforeClaim before) ready claimed
    (.performGuarded (.start ⟨rfl, rfl⟩) run) returned).mpr
  obtain rfl : log = _ := ended
  simp [Closing.Spoiled]

/-- Three settlings of two claimed reviews, which are both `GATED` although the engine has
forbidden a retry. -/
theorem not_settled_once :
    ¬∀ (s₀ s₁ s : State ℕ) (i : ℕ) (batchId : Uuid) (skipped ids : List Uuid)
      (log : List (Closing ℕ)) (stats : Stats), State.ReachableIdle defaults Runs.Anything s₀ →
      s₀.calls[i]? = some (.worker ⟨batchId, .ready⟩) →
      s₀.step defaults (.act i (.claim skipped ids .ok)) = some s₁ →
      State.BatchRun defaults (Alone i) i s₁ (s, log) →
      s.calls[i]? = some (.worker ⟨batchId, .completing stats⟩) →
      SettledOnce (claimedRows s₀.db batchId ids) log s.db stats := by
  intro claim
  obtain ⟨s₀, before, ready, s₁, claimed, ⟨s, log⟩, run, returned⟩ :
      ∃ s₀, Runs.perform (State.step defaults) .start
          (beforeClaim (sampleReview 7 2) (sampleReview 8 3)) = some s₀ ∧
        s₀.calls[3]? = some (.worker ⟨77, .ready⟩) ∧
        ∃ s₁, s₀.step defaults (.act 3 (.claim [] [7, 8] .ok)) = some s₁ ∧
          ∃ x, Runs.performGuarded (Runs.recorded (State.step defaults) (noteEndings 3))
              (fun x a => Alone 3 x.1 a) (s₁, []) failsToSettle = some x ∧
            x.1.calls[3]? = some (.worker ⟨77, .completing ⟨2, 0, 2, 1, 0⟩⟩) :=
    ⟨_, rfl, rfl, _, rfl, _, rfl, rfl⟩
  have settled := claim s₀ s₁ s 3 77 [] [7, 8] log _ (reachable_beforeClaim before) ready claimed
    (.performGuarded (.start ⟨rfl, rfl⟩) run) returned
  cases settled.adds

end DostReview.Review
