import DostReview.Review.Attempts

/-!
# Reviews that fail the engine

An engine that fails exactly on some reviews, called with all of a profile's reviews at once.
The failure counts against every review of the call. A review is dead-lettered once it has
been in `max_review_retries` calls together with one that fails, whether or not it is one of
them; a profile without such reviews loses none.
-/
namespace DostReview.Review

variable {σ : Type} {cfg : Config σ} {db db' : Db σ} {v : View σ} {m : Move σ}
  {st : Option (Stmt σ)} {bad : Uuid → Prop}

/-! ### The engine's calls -/

/-- The reviews of the engine call that an action answers. -/
def State.given (s : State σ) : Action σ → List ReviewRow
  | .act i (.engine _) =>
    match s.calls[i]? with
    | some (.worker ⟨_, .processing work _⟩) => work.rows
    | _ => []
  | _ => []

/-- How many engine calls each review has been in together with a bad one. -/
def countMeetings (bad : Uuid → Prop) [DecidablePred bad] (s : State σ) (a : Action σ)
    (met : Uuid → ℕ) (id : Uuid) : ℕ :=
  if (∃ b ∈ s.given a, bad b.id) ∧ ∃ row ∈ s.given a, row.id = id then met id + 1 else met id

/-- A worker's move when nothing of its own fails, with an engine that returns a retryable error
exactly when it is given a bad review. -/
def Move.FailsOn (bad : Uuid → Prop) (given : List ReviewRow) : Move σ → Prop
  | .reply r => r = .ok
  | .claim _ _ r => r = .ok
  | .engine (.output _) => ∀ b ∈ given, ¬bad b.id
  | .engine (.error willRetry) => willRetry.getD true = true ∧ ∃ b ∈ given, bad b.id
  | .engine (.raised _) => False
  | .crash => False
  | _ => True

def Call.working : Call σ → Bool
  | .worker w => !w.ended
  | _ => false

/-- One worker at a time, without a crash or a failed statement of its own. -/
def FailsOn (bad : Uuid → Prop) (s : State σ) : Action σ → Prop
  | .request (.runBatchToCompletion _) => ∀ c ∈ s.calls, c.working = false
  | .act i m =>
    match s.calls[i]? with
    | some (.worker _) => m.FailsOn bad (s.given (.act i m))
    | _ => True
  | _ => True

instance (bad : Uuid → Prop) [DecidablePred bad] (given : List ReviewRow) :
    ∀ m : Move σ, Decidable (m.FailsOn bad given)
  | .reply r => inferInstanceAs (Decidable (r = .ok))
  | .claim _ _ r => inferInstanceAs (Decidable (r = .ok))
  | .engine (.output _) => inferInstanceAs (Decidable (∀ b ∈ given, ¬bad b.id))
  | .engine (.error willRetry) =>
    inferInstanceAs (Decidable (willRetry.getD true = true ∧ ∃ b ∈ given, bad b.id))
  | .engine (.raised _) => isFalse id
  | .crash => isFalse id
  | .clock => isTrue trivial
  | .onboard _ => isTrue trivial
  | .uuid _ _ => isTrue trivial

instance (bad : Uuid → Prop) [DecidablePred bad] (s : State σ) :
    ∀ a : Action σ, Decidable (FailsOn bad s a)
  | .tick _ => isTrue trivial
  | .request (.gateAndStore _ _) => isTrue trivial
  | .request .startBatch => isTrue trivial
  | .request .sweepStaleBatches => isTrue trivial
  | .request (.runBatchToCompletion _) =>
    inferInstanceAs (Decidable (∀ c ∈ s.calls, c.working = false))
  | .act i m =>
    match h : s.calls[i]? with
    | some (.worker _) => decidable_of_iff (m.FailsOn bad (s.given (.act i m))) (by simp [FailsOn, h])
    | some (.gate _) => isTrue (by simp [FailsOn, h])
    | some (.starter _) => isTrue (by simp [FailsOn, h])
    | none => isTrue (by simp [FailsOn, h])

theorem failsOn_worker {s : State σ} {i : ℕ} {w : Worker σ} (here : s.calls[i]? = some (.worker w)) :
    FailsOn bad s (.act i m) ↔ m.FailsOn bad (s.given (.act i m)) := by
  simp [FailsOn, here]

/-- The worker's steps when nothing it awaits fails. -/
inductive Worker.Smooth (cfg : Config σ) (v : View σ) (w : Worker σ) :
    Move σ → WorkerPhase σ → Option (Stmt σ) → Prop
  | claimed (skipped ids : List Uuid) : w.phase = .ready →
      Picks v.db cfg.maxReviewsPerBatch skipped ids →
      Smooth cfg v w (.claim skipped ids .ok) (claimed (claimedRows v.db w.batchId ids))
        (some (.claim w.batchId ids))
  | read (work : Work) : w.phase = .loading work →
      Smooth cfg v w (.reply .ok)
        (.processing work ((v.db.reputations.find? work.profileId).map (·.state))) none
  | output (work : Work) (stored : Option σ) (out : EngineOutput σ) :
      w.phase = .processing work stored →
      Smooth cfg v w (.engine (.output out)) (.committing work stored out) none
  | engineError (work : Work) (stored : Option σ) (willRetry : Option Bool) :
      w.phase = .processing work stored →
      Smooth cfg v w (.engine (.error willRetry))
        (settle work work.rows (willRetry.getD true) false) none
  | committed (work : Work) (stored : Option σ) (out : EngineOutput σ) :
      w.phase = .committing work stored out →
      Smooth cfg v w (.reply .ok) work.committed (some (work.commit out v.now))
  | settled (work : Work) (row : ReviewRow) (todo : List ReviewRow) (willRetry handler : Bool) :
      w.phase = .settling work (row :: todo) willRetry handler →
      Smooth cfg v w (.reply .ok)
        (settle { work with stats := settleStats cfg willRetry row work.stats } todo willRetry handler)
        (some (settleStmt cfg willRetry row v.now))
  | completed (stats : Stats) : w.phase = .completing stats →
      Smooth cfg v w (.reply .ok) (.returned .completed)
        (some (.finish w.batchId .completed (.stats stats) v.now))
  | marked (e : String) : w.phase = .failing e →
      Smooth cfg v w (.reply .ok) .requeueing (some (.finish w.batchId .failed (.error e) v.now))
  | requeued : w.phase = .requeueing →
      Smooth cfg v w (.reply .ok) (.returned .failed) (some (.requeue [w.batchId]))

theorem Worker.smooth_of_advance {w w' : Worker σ} (moved : w.advance cfg v m = some (w', st))
    (replies : ∀ r, m = .reply r → r = .ok)
    (claims : ∀ skipped ids r, m = .claim skipped ids r → r = .ok) (alive : m ≠ .crash)
    (returns : ∀ e, m ≠ .engine (.raised e)) :
    ∃ phase, w' = w.enter phase ∧ w.Smooth cfg v m phase st := by
  cases m with
  | crash => exact absurd rfl alive
  | claim skipped ids r =>
    obtain rfl := claims skipped ids r rfl
    simp only [advance] at moved
    split at moved
    next here =>
      split at moved
      next picks =>
        cases moved
        exact ⟨_, rfl, .claimed skipped ids here picks⟩
      next => cases moved
    next => cases moved
  | engine outcome =>
    simp only [advance] at moved
    split at moved
    next e here => exact absurd rfl (returns e)
    next work stored out here =>
      cases moved
      exact ⟨_, rfl, .output work stored out here⟩
    next work stored willRetry here =>
      cases moved
      exact ⟨_, rfl, .engineError work stored willRetry here⟩
    next work stored e here => exact absurd rfl (returns e)
    next => cases moved
  | reply r =>
    obtain rfl := replies r rfl
    simp only [advance] at moved
    split at moved
    next work here =>
      cases moved
      exact ⟨_, rfl, .read work here⟩
    next work stored out here =>
      split at moved
      · cases moved
      cases moved
      exact ⟨_, rfl, .committed work stored out here⟩
    next work row todo willRetry handler here =>
      split at moved
      · cases moved
      cases moved
      exact ⟨_, rfl, .settled work row todo willRetry handler here⟩
    next stats here =>
      cases moved
      exact ⟨_, rfl, .completed stats here⟩
    next e here =>
      cases moved
      exact ⟨_, rfl, .marked e here⟩
    next here =>
      cases moved
      exact ⟨_, rfl, .requeued here⟩
    next => cases moved
  | clock | onboard | uuid => cases moved

/-! ### What a worker carries -/

/-- The retries counted on the rows a worker holds, against the meetings; the rows it is about to
give back have just had one more. -/
def WorkerPhase.Met (met : Uuid → ℕ) : WorkerPhase σ → Prop
  | .loading w => ∀ g ∈ w.groups, ∀ row ∈ g.2, row.retryCount ≤ met row.id
  | .processing w _ => ∀ g ∈ w.groups, ∀ row ∈ g.2, row.retryCount ≤ met row.id
  | .committing w _ _ => ∀ g ∈ w.groups, ∀ row ∈ g.2, row.retryCount ≤ met row.id
  | .settling w todo willRetry _ => willRetry = true ∧
    (∀ g ∈ w.rest, ∀ row ∈ g.2, row.retryCount ≤ met row.id) ∧
    ∀ row ∈ todo, row.retryCount + 1 ≤ met row.id
  | _ => True

theorem met_nextProfile {met : Uuid → ℕ} {rest : List (Uuid × List ReviewRow)} (stats : Stats)
    (h : ∀ g ∈ rest, ∀ row ∈ g.2, row.retryCount ≤ met row.id) :
    (nextProfile rest stats : WorkerPhase σ).Met met := by
  cases rest with
  | nil => trivial
  | cons g rest => exact h

theorem met_settle {met : Uuid → ℕ} {work : Work} {todo : List ReviewRow} {willRetry : Bool}
    (handler : Bool) (again : willRetry = true)
    (later : ∀ g ∈ work.rest, ∀ row ∈ g.2, row.retryCount ≤ met row.id)
    (now : ∀ row ∈ todo, row.retryCount + 1 ≤ met row.id) :
    (settle work todo willRetry handler : WorkerPhase σ).Met met := by
  cases todo with
  | nil => exact met_nextProfile _ later
  | cons row todo => exact ⟨again, later, now⟩

theorem WorkerPhase.Met.mono {met met' : Uuid → ℕ} (more : ∀ id, met id ≤ met' id)
    {phase : WorkerPhase σ} (h : phase.Met met) : phase.Met met' := by
  cases phase with
  | loading | processing | committing => exact fun g hg row hrow => (h g hg row hrow).trans (more _)
  | settling =>
    obtain ⟨again, later, now⟩ := h
    exact ⟨again, fun g hg row hrow => (later g hg row hrow).trans (more _),
      fun row hrow => (now row hrow).trans (more _)⟩
  | _ => trivial

theorem countMeetings_ge [DecidablePred bad] (s : State σ) (a : Action σ) (met : Uuid → ℕ) (id : Uuid) :
    met id ≤ countMeetings bad s a met id := by
  unfold countMeetings
  split
  · omega
  · exact Nat.le_refl _

/-- An action that answers no engine call counts nothing. -/
theorem countMeetings_of_given [DecidablePred bad] {s : State σ} {a : Action σ} (none : s.given a = [])
    (met : Uuid → ℕ) : countMeetings bad s a met = met := by
  funext id
  simp [countMeetings, none]

/-! ### The tables -/

/-- An UPDATE that does not settle a review leaves the retries, and fails none. -/
theorem Stmt.onReview_unsettled (x : Stmt σ) (back : ∀ id retryCount, x ≠ .giveBack id retryCount)
    (dead : ∀ id retryCount now, x ≠ .deadLetter id retryCount now) (row : ReviewRow) :
    (x.onReview row).retryCount = row.retryCount ∧
      ((x.onReview row).status = .failed → row.status = .failed) := by
  cases x with
  | giveBack id retryCount => exact absurd rfl (back id retryCount)
  | deadLetter id retryCount now => exact absurd rfl (dead id retryCount now)
  | claim | commitProfile | requeue =>
    simp only [onReview]
    split
    · exact ⟨rfl, by rintro ⟨⟩⟩
    · exact ⟨rfl, id⟩
  | putReview | finish | sweep | insertBatch => exact ⟨rfl, id⟩

/-- The retries counted on a review are meetings, one that is dead-lettered has had them all, and
a review has met only reviews of its own profile. -/
structure MetDb (bad : Uuid → Prop) (limit : ℕ) (db : Db σ) (met : Uuid → ℕ) : Prop where
  counted : ∀ id row, db.reviews.find? id = some row → row.retryCount ≤ met id
  failed : ∀ id row, db.reviews.find? id = some row → row.status = .failed → limit ≤ met id
  neighbour : ∀ id, 0 < met id → ∃ row other b, db.reviews.find? id = some row ∧ row.Accepted ∧
    bad b ∧ db.reviews.find? b = some other ∧ other.Accepted ∧
    other.targetProfileId = row.targetProfileId

namespace MetDb

variable {limit : ℕ} {met : Uuid → ℕ} {written : List Uuid}

theorem neighbour_after (h : MetDb bad limit db met) (touch : Touches db written st) (id : Uuid)
    (some_ : 0 < met id) : ∃ row other b, (db.after st).reviews.find? id = some row ∧ row.Accepted ∧
      bad b ∧ (db.after st).reviews.find? b = some other ∧ other.Accepted ∧
      other.targetProfileId = row.targetProfileId := by
  obtain ⟨row, other, b, found, accepted, isBad, foundB, acceptedB, same⟩ := h.neighbour id some_
  obtain ⟨row', found', accepted', kept⟩ := touch.keeps _ _ found accepted
  obtain ⟨other', foundB', acceptedB', keptB⟩ := touch.keeps _ _ foundB acceptedB
  refine ⟨row', other', b, found', accepted', isBad, foundB', acceptedB', ?_⟩
  rw [kept, keptB]
  exact same

/-- An UPDATE that counts and fails only reviews that have met enough. -/
theorem update (h : MetDb bad limit db met) {x : Stmt σ} (touch : Touches db written (some x))
    (plain : ∀ row, x ≠ .putReview row)
    (each : ∀ row, db.reviews.find? row.id = some row →
      ((x.onReview row).retryCount = row.retryCount ∧
        ((x.onReview row).status = .failed → row.status = .failed)) ∨
      (x.onReview row).retryCount ≤ met row.id ∧
        ((x.onReview row).status = .failed → limit ≤ met row.id)) :
    MetDb bad limit (x.exec db) met where
  counted id row' found' := by
    obtain ⟨row, found, key, rfl⟩ := Stmt.row_before plain found'
    rcases each row (key ▸ found) with ⟨same, -⟩ | ⟨counts, -⟩
    · rw [same]
      exact h.counted id row found
    · exact key ▸ counts
  failed id row' found' dead := by
    obtain ⟨row, found, key, rfl⟩ := Stmt.row_before plain found'
    rcases each row (key ▸ found) with ⟨-, before⟩ | ⟨-, enough⟩
    · exact h.failed id row found (before dead)
    · exact key ▸ enough dead
  neighbour := h.neighbour_after touch

theorem unsettled (h : MetDb bad limit db met) {x : Stmt σ} (touch : Touches db written (some x))
    (plain : ∀ row, x ≠ .putReview row) (back : ∀ id retryCount, x ≠ .giveBack id retryCount)
    (dead : ∀ id retryCount now, x ≠ .deadLetter id retryCount now) :
    MetDb bad limit (x.exec db) met :=
  h.update touch plain fun row _ => .inl (x.onReview_unsettled back dead row)

theorem put (h : MetDb bad limit db met) {row : ReviewRow}
    (touch : Touches db written (some (.putReview row))) (first : row.retryCount = 0)
    (alive : row.status ≠ .failed) : MetDb bad limit ((Stmt.putReview row).exec db) met where
  counted id row' found' := by
    rw [Stmt.find?_exec_putReview] at found'
    split at found'
    next =>
      cases found'
      omega
    next => exact h.counted id row' found'
  failed id row' found' dead := by
    rw [Stmt.find?_exec_putReview] at found'
    split at found'
    next =>
      cases found'
      exact absurd dead alive
    next => exact h.failed id row' found' dead
  neighbour := h.neighbour_after touch

end MetDb

/-- The reviews of one engine call have met the bad ones among them. -/
theorem MetDb.given [DecidablePred bad] {limit : ℕ} {met : Uuid → ℕ}
    (h : MetDb bad limit db met) {s : State σ} {a : Action σ} {profileId : Uuid}
    (sound : SoundGroup db (profileId, s.given a)) :
    MetDb bad limit db (countMeetings bad s a met) where
  counted id row found := (h.counted id row found).trans (countMeetings_ge s a met id)
  failed id row found dead := (h.failed id row found dead).trans (countMeetings_ge s a met id)
  neighbour id some_ := by
    unfold countMeetings at some_
    split at some_
    next together =>
      obtain ⟨⟨b, mem, isBad⟩, row, memRow, rfl⟩ := together
      obtain ⟨r, found, accepted, target⟩ := sound.held row memRow
      obtain ⟨o, foundB, acceptedB, targetB⟩ := sound.held b mem
      exact ⟨r, o, b.id, found, accepted, isBad, foundB, acceptedB, targetB.trans target.symm⟩
    next => exact h.neighbour id some_

/-! ### One step -/

structure Meets (bad : Uuid → Prop) (cfg : Config σ) (x : State σ × (Uuid → ℕ)) : Prop where
  sound : x.1.Sound
  db : MetDb bad cfg.maxReviewRetries x.1.db x.2
  held : ∀ (i : ℕ) (w : Worker σ), x.1.calls[i]? = some (.worker w) → w.phase.Met x.2

/-- What a worker claims carries the retries of its rows. -/
theorem met_claimed {met : Uuid → ℕ} {batchId : Uuid} {ids : List Uuid}
    (counted : ∀ id row, db.reviews.find? id = some row → row.retryCount ≤ met id) :
    (Worker.claimed (claimedRows db batchId ids) : WorkerPhase σ).Met met := by
  apply met_nextProfile
  intro g hg row hrow
  rw [group_eq hg] at hrow
  obtain ⟨id, picked, h⟩ := List.mem_filterMap.mp (List.mem_filter.mp hrow).1
  obtain ⟨r, found, rfl⟩ := Option.map_eq_some_iff.mp h
  have key := Table.key_of_find? found
  have same : ((Stmt.claim batchId ids : Stmt σ).onReview r).retryCount = r.retryCount := by
    simp only [Stmt.onReview]
    split <;> rfl
  rw [same, Stmt.onReview_id, key]
  exact counted id r found

theorem State.given_engine {s : State σ} {i : ℕ} {w : Worker σ} {work : Work} {stored : Option σ}
    (here : s.calls[i]? = some (.worker w)) (processing : w.phase = .processing work stored)
    (outcome : EngineOutcome σ) : s.given (.act i (.engine outcome)) = work.rows := by
  obtain ⟨batchId, phase⟩ := w
  cases processing
  simp only [State.given, here]

/-- Only the answer of an engine call is given rows. -/
theorem State.given_of_other {s : State σ} {i : ℕ} (other : ∀ outcome, m ≠ .engine outcome) :
    s.given (.act i m) = [] := by
  cases m with
  | engine outcome => exact absurd rfl (other outcome)
  | _ => rfl

theorem State.given_of_gate {s : State σ} {i : ℕ} {g : Gate} (here : s.calls[i]? = some (.gate g)) :
    s.given (.act i m) = [] := by
  cases m with
  | engine outcome => simp [State.given, here]
  | _ => rfl

theorem State.given_of_starter {s : State σ} {i : ℕ} {b : Starter}
    (here : s.calls[i]? = some (.starter b)) : s.given (.act i m) = [] := by
  cases m with
  | engine outcome => simp [State.given, here]
  | _ => rfl

/-- A worker's step when nothing fails: what it goes on with. -/
theorem Worker.Smooth.met [DecidablePred bad] {s : State σ} {met : Uuid → ℕ} {i : ℕ} {w : Worker σ}
    {phase : WorkerPhase σ} (here : s.calls[i]? = some (.worker w))
    (step : w.Smooth cfg (s.view cfg i) m phase st) (fails : FailsOn bad s (.act i m))
    (db : MetDb bad cfg.maxReviewRetries s.db met) (held : w.phase.Met met) :
    phase.Met (countMeetings bad s (.act i m) met) := by
  have more : ∀ id, met id ≤ countMeetings bad s (.act i m) met id := countMeetings_ge s _ met
  cases step with
  | claimed skipped ids ready picks =>
    apply met_claimed
    exact fun id row found => (db.counted id row found).trans (more id)
  | read work loading =>
    rw [loading] at held
    exact held.mono more
  | output work stored out processing =>
    rw [processing] at held
    exact held.mono more
  | engineError work stored willRetry processing =>
    rw [processing] at held
    obtain ⟨again, b, mem, isBad⟩ := (failsOn_worker here).mp fails
    have given := State.given_engine here processing (.error willRetry)
    rw [given] at mem
    apply met_settle _ again
    · exact fun g hg row hrow => (held g (List.mem_cons_of_mem _ hg) row hrow).trans (more _)
    · -- every row of the call has met the bad one
      intro row hrow
      have before := held _ List.mem_cons_self row hrow
      unfold countMeetings
      rw [given, if_pos ⟨⟨b, mem, isBad⟩, row, hrow, rfl⟩]
      omega
  | committed work stored out committing =>
    rw [committing] at held
    apply met_nextProfile
    exact fun g hg row hrow => (held g (List.mem_cons_of_mem _ hg) row hrow).trans (more _)
  | settled work row todo willRetry handler settling =>
    rw [settling] at held
    obtain ⟨again, later, now⟩ := held
    apply met_settle _ again
    · exact fun g hg row hrow => (later g hg row hrow).trans (more _)
    · exact fun row hrow => (now row (List.mem_cons_of_mem _ hrow)).trans (more _)
  | completed | marked | requeued => trivial

/-- What takes effect in such a step. -/
theorem Worker.Smooth.metDb {w : Worker σ} {phase : WorkerPhase σ} {met : Uuid → ℕ}
    {written : List Uuid} (step : w.Smooth cfg v m phase st)
    (touch : Touches v.db written st) (h : MetDb bad cfg.maxReviewRetries v.db met)
    (held : w.phase.Met met) : MetDb bad cfg.maxReviewRetries (v.db.after st) met := by
  cases step with
  | read | output | engineError => exact h
  | claimed | completed | marked | requeued =>
    exact h.unsettled touch (by simp) (by simp) (by simp)
  | committed =>
    exact h.unsettled touch (by simp [Work.commit]) (by simp [Work.commit]) (by simp [Work.commit])
  | settled work row todo willRetry handler settling =>
    rw [settling] at held
    obtain ⟨rfl, -, now⟩ := held
    have enough := now row List.mem_cons_self
    -- both UPDATEs write the count that the row carried, plus one
    apply h.update touch fun _ => settleStmt_ne (by simp) (by simp) _ _ _ _
    intro r found
    unfold settleStmt
    split
    next dead =>
      -- a retryable failure dead-letters only at the last attempt
      have last : cfg.maxReviewRetries ≤ row.retryCount + 1 := by simpa [DeadLetters] using dead
      simp only [Stmt.onReview]
      split
      next mine => exact .inr ⟨mine ▸ enough, fun _ => mine ▸ last.trans enough⟩
      next => exact .inl ⟨rfl, id⟩
    next =>
      simp only [Stmt.onReview]
      split
      next mine => exact .inr ⟨mine ▸ enough, by rintro ⟨⟩⟩
      next => exact .inl ⟨rfl, id⟩

theorem FailsOn.smooth {s : State σ} {i : ℕ} {w w' : Worker σ}
    (here : s.calls[i]? = some (.worker w)) (fails : FailsOn bad s (.act i m))
    (moved : w.advance cfg (s.view cfg i) m = some (w', st)) :
    ∃ phase, w' = w.enter phase ∧ w.Smooth cfg (s.view cfg i) m phase st := by
  have rule := (failsOn_worker here).mp fails
  apply Worker.smooth_of_advance moved
  · rintro r rfl
    exact rule
  · rintro skipped ids r rfl
    exact rule
  · rintro rfl
    exact rule
  · rintro e rfl
    exact rule

theorem MetDb.gate {s : State σ} {met : Uuid → ℕ} (h : MetDb bad cfg.maxReviewRetries s.db met)
    (sound : s.Sound) {i : ℕ} {g : Gate} {phase : GatePhase} (here : s.calls[i]? = some (.gate g))
    (gs : g.Step cfg (s.view cfg i) m phase st) :
    MetDb bad cfg.maxReviewRetries (s.db.after st) met := by
  have touch := sound.gate here gs
  obtain rfl | ⟨row, rfl⟩ := gs.puts
  · exact h
  rcases gs.put_cases sound.clean (sound.calls _ _ here) rfl with rejected | ⟨start, -, rfl⟩
  · apply h.put touch _ (by simp [rejected])
    cases touch with
    | wrote _ _ _ fresh => exact (fresh rejected).retries
    | updated _ plain => exact absurd rfl (plain row)
  · -- a review that is accepted starts without retries
    exact h.put touch rfl (by simp [gatedRow])

theorem MetDb.starter {met : Uuid → ℕ} {b : Starter} {phase : StarterPhase}
    (h : MetDb bad cfg.maxReviewRetries v.db met) (bs : b.Step cfg v m phase st) :
    MetDb bad cfg.maxReviewRetries (v.db.after st) met := by
  have touch := bs.touches
  cases st with
  | none => exact h
  | some x =>
    rcases bs.stmt_cases rfl with ⟨rfl, -⟩ | ⟨ids, rfl, -⟩ | ⟨row, rfl, -⟩ <;>
      exact h.unsettled touch (by simp) (by simp) (by simp)

/-- A worker's step: the answer of an engine call is counted and writes nothing, any other step
counts nothing. -/
theorem MetDb.worker [DecidablePred bad] {s : State σ} {met : Uuid → ℕ}
    (h : MetDb bad cfg.maxReviewRetries s.db met) (sound : s.Sound) {i : ℕ} {w : Worker σ}
    {phase : WorkerPhase σ} (here : s.calls[i]? = some (.worker w))
    (step : w.Smooth cfg (s.view cfg i) m phase st) (touch : Touches s.db (s.view cfg i).written st)
    (held : w.phase.Met met) :
    MetDb bad cfg.maxReviewRetries (s.db.after st) (countMeetings bad s (.act i m) met) := by
  have carried : w.phase.Sound s.db := sound.calls _ _ here
  -- the call is about one profile, so the bad review it has met is of that profile
  have answered : ∀ {work : Work} {stored : Option σ} (outcome : EngineOutcome σ),
      w.phase = .processing work stored →
      MetDb bad cfg.maxReviewRetries s.db
        (countMeetings bad s (.act i (.engine outcome)) met) := by
    intro work stored outcome processing
    rw [processing] at carried
    have group : SoundGroup s.db (work.profileId, s.given (.act i (.engine outcome))) := by
      rw [State.given_engine here processing]
      exact carried _ List.mem_cons_self
    exact h.given group
  have plain : (∀ outcome, m ≠ .engine outcome) →
      MetDb bad cfg.maxReviewRetries (s.db.after st) (countMeetings bad s (.act i m) met) := by
    intro other
    rw [countMeetings_of_given (State.given_of_other other)]
    exact step.metDb touch h held
  cases step with
  | output work stored out processing => exact answered _ processing
  | engineError work stored willRetry processing => exact answered _ processing
  | _ => exact plain (by simp)

theorem Meets.step [DecidablePred bad] {x y : State σ × (Uuid → ℕ)} {a : Action σ}
    (h : Meets bad cfg x) (step : Runs.recorded (State.step cfg) (countMeetings bad) x a = some y)
    (fails : FailsOn bad x.1 a) : Meets bad cfg y := by
  obtain ⟨s, met⟩ := x
  obtain ⟨s', met'⟩ := y
  obtain ⟨step, rfl⟩ := Runs.recorded_eq_some.mp step
  have sound := h.sound
  -- what another worker holds it holds with no fewer meetings
  have others : ∀ (j : ℕ) (w : Worker σ), s.calls[j]? = some (.worker w) →
      w.phase.Met (countMeetings bad s a met) :=
    fun j w hj => (h.held j w hj).mono (countMeetings_ge s a met)
  cases a with
  | tick d =>
    refine ⟨sound.step step, ?_, ?_⟩
    · cases step
      rw [countMeetings_of_given rfl]
      exact h.db
    · cases step
      exact others
  | request r =>
    refine ⟨sound.step step, ?_, ?_⟩
    · cases step
      rw [countMeetings_of_given rfl]
      exact h.db
    · cases step
      intro j w hj
      rcases Pool.getElem?_append_cases hj with ⟨-, new⟩ | old
      · cases r <;> cases new
        trivial
      · exact others j w old
  | act i m =>
    obtain ⟨c, c', st, here, moved, rfl⟩ := State.acted step
    have touch := sound.touches_of_advance here moved
    refine ⟨sound.step step, ?_, ?_⟩
    · cases c <;> obtain ⟨⟨x, st⟩, moved, eq⟩ := Option.map_eq_some_iff.mp moved <;> cases eq
      · obtain ⟨phase, -, gs⟩ := Gate.step_of_advance moved
        rw [countMeetings_of_given (State.given_of_gate here)]
        exact h.db.gate sound here gs
      · -- a worker, to which nothing of its own fails
        obtain ⟨phase, -, ws⟩ := fails.smooth here moved
        exact h.db.worker sound here ws touch (h.held i _ here)
      · obtain ⟨phase, -, bs⟩ := Starter.step_of_advance moved
        rw [countMeetings_of_given (State.given_of_starter here)]
        exact MetDb.starter (v := s.view cfg i) h.db bs
    · intro j w hj
      rcases Pool.getElem?_set_cases hj with ⟨rfl, rfl⟩ | ⟨-, old⟩
      · cases c <;> obtain ⟨⟨x, st⟩, moved, eq⟩ := Option.map_eq_some_iff.mp moved <;> cases eq
        obtain ⟨phase, rfl, ws⟩ := fails.smooth here moved
        exact ws.met here fails h.db (h.held j _ here)
      · exact others j w old

/-! ### Dead letters -/

/-- With an engine that fails exactly when it is given a bad review, and nothing else failing, a
review is dead-lettered only after it has been in `max_review_retries` engine calls together
with a bad one, so only if a review of its profile is bad. -/
theorem dead_letters_met [DecidablePred bad] (retries : 1 ≤ cfg.maxReviewRetries) {s : State σ}
    {met : Uuid → ℕ}
    (reachable : Runs.Reachable (Runs.Noted State.Init fun _ => 0)
      (Runs.recorded (State.step cfg) (countMeetings bad)) (fun x a => FailsOn bad x.1 a) (s, met))
    {id : Uuid} {row : ReviewRow} (found : s.db.reviews.find? id = some row)
    (dead : row.status = .failed) :
    cfg.maxReviewRetries ≤ met id ∧
    ∃ b other, bad b ∧ s.db.reviews.find? b = some other ∧ other.Accepted ∧
      other.targetProfileId = row.targetProfileId := by
  have meets : Meets bad cfg (s, met) := by
    refine reachable.invariant (fun x init => ?_) fun x a y _ h step fails => h.step step fails
    obtain ⟨s, met⟩ := x
    obtain ⟨⟨empty, none⟩, rfl⟩ := init
    have reached : State.Reachable cfg Runs.Anything s := .start ⟨empty, none⟩
    have absent : ∀ id, s.db.reviews.find? id = Option.none := by
      intro id
      rw [empty]
      rfl
    refine ⟨State.sound reached, ⟨?_, ?_, ?_⟩, ?_⟩
    · exact fun id row found => by simp [absent] at found
    · exact fun id row found => by simp [absent] at found
    · exact fun id some_ => absurd some_ (Nat.lt_irrefl 0)
    · intro i w hi
      have noCalls : s.calls = [] := none
      simp [noCalls] at hi
  -- a dead letter has met enough bad reviews, so at least one
  have enough := meets.db.failed id row found dead
  have once : 0 < met id := Nat.lt_of_lt_of_le retries enough
  obtain ⟨row', other, b, found', -, isBad, foundB, accepted, same⟩ := meets.db.neighbour id once
  cases found.symm.trans found'
  exact ⟨enough, b, other, isBad, foundB, accepted, same⟩

/-- The good review 8 is in every batch of the bad review 7 of its profile. -/
def failsTogether (i : ℕ) (batchId : Uuid) : List (Action ℕ) :=
  .request .startBatch :: startsBatch i batchId ++
  [.request (.runBatchToCompletion batchId), .act (i + 1) (.claim [] [7, 8] .ok),
    .act (i + 1) (.reply .ok), .act (i + 1) (.engine (.error (some true))), .act (i + 1) (.reply .ok),
    .act (i + 1) (.reply .ok), .act (i + 1) (.reply .ok)]

def threeBatches : List (Action ℕ) :=
  .request (.gateAndStore (sampleReview 7 2) none) :: untilCheck 0 ++ checkAndCommit 0 ++
  .request (.gateAndStore (sampleReview 8 3) none) :: untilCheck 1 ++ checkAndCommit 1 ++
  failsTogether 2 77 ++ failsTogether 4 78 ++ failsTogether 6 79

/-- Neither the bad review nor the good one is left after the third batch: the good one has been
in three calls with the bad one. -/
theorem dead_letters_met_three : ∃ (s : State ℕ) (met : Uuid → ℕ),
    Runs.performGuarded (Runs.recorded (State.step defaults) (countMeetings (· = 7)))
      (fun x a => FailsOn (· = 7) x.1 a) (.start, fun _ => 0) threeBatches = some (s, met) ∧
    3 ≤ met 8 := by
  have run : Runs.performGuarded (Runs.recorded (State.step defaults) (countMeetings (· = 7)))
      (fun x a => FailsOn (· = 7) x.1 a) (.start, fun _ => 0) threeBatches = some _ := rfl
  refine ⟨_, _, run, ?_⟩
  exact (dead_letters_met (by decide) (.performGuarded (.start ⟨⟨rfl, rfl⟩, rfl⟩) run) rfl rfl).1

/-- The good review 8 is dead-lettered. -/
theorem good_dead_lettered :
    ¬∀ (s : State ℕ), State.Reachable defaults (FailsOn (· = 7)) s →
      ∀ id row, id ≠ 7 → s.db.reviews.find? id = some row → row.status ≠ .failed := by
  intro claim
  have run : Runs.performGuarded (State.step defaults) (FailsOn (· = 7)) .start threeBatches =
      some _ := rfl
  have init : State.Init (State.start : State ℕ) := ⟨rfl, rfl⟩
  have reached : State.Reachable defaults (FailsOn (· = 7)) _ := .performGuarded (.start init) run
  exact claim _ reached 8 _ (by decide) rfl rfl

end DostReview.Review
