import DostReview.Review.Rounds

/-!
# No review starves

How long a review waits for its batch. What is ahead of it are the unfinished reviews received no
later and the transactions of the gate that began no later: each takes a number of attempts at
most, a batch that passes the review over takes the batch limit of them, and nothing else gets
ahead of it any more.
-/
namespace DostReview.Review

variable {σ : Type} {cfg : Config σ}

/-! ### What is ahead of a review -/

/-- The attempts at most that one review takes. -/
def Config.attempts (cfg : Config σ) : ℕ := max 1 cfg.maxReviewRetries

def ReviewRow.finished (row : ReviewRow) : Bool := row.status = .committed ∨ row.status = .failed

/-- Another accepted review, received no later. -/
def before (ρ : Time) (id : Uuid) (row : ReviewRow) : Bool :=
  row.status ≠ .gateRejected ∧ row.receivedAt ≤ ρ ∧ row.id ≠ id

/-- When the transaction of a call of the gate has begun. -/
def GatePhase.began : GatePhase → Option Time
  | .locking _ start => some start
  | .checking _ start => some start
  | .timing start => some start
  | .counting start _ => some start
  | .persisting start _ => some start
  | .inserting start => some start
  | .committing start _ _ => some start
  | _ => none

/-- A transaction of the gate that began no later. -/
def Call.entering (ρ : Time) : Call σ → Bool
  | .gate g => g.phase.began.any (· ≤ ρ)
  | _ => false

/-- Reviews received no later, or perhaps still to be. -/
def State.upTo (s : State σ) (ρ : Time) (id : Uuid) : ℕ :=
  s.db.reviews.count (before ρ id) + s.calls.countP (Call.entering ρ)

/-- What is ahead of a review and not finished. -/
def State.ahead (s : State σ) (ρ : Time) (id : Uuid) : ℕ :=
  s.db.reviews.count (fun row => before ρ id row && !row.finished) +
    s.calls.countP (Call.entering ρ)

/-- The attempts that a review has used up; a finished one has no more. -/
def ReviewRow.spent (cfg : Config σ) (row : ReviewRow) : ℕ :=
  if row.finished then cfg.attempts else min row.retryCount (cfg.attempts - 1)

def spentBefore (cfg : Config σ) (ρ : Time) (id : Uuid) (row : ReviewRow) : ℕ :=
  if before ρ id row then row.spent cfg else 0

theorem ReviewRow.spent_le (cfg : Config σ) (row : ReviewRow) : row.spent cfg ≤ cfg.attempts := by
  unfold spent
  split <;> omega

theorem ReviewRow.spent_of_retryCount {row row' : ReviewRow} (unfinished : row.finished = false)
    (unfinished' : row'.finished = false) (retries : row'.retryCount = row.retryCount) :
    row'.spent cfg = row.spent cfg := by
  simp [spent, unfinished, unfinished', retries]

/-- Settling a review uses up an attempt. -/
theorem Ending.final_spent (e : Ending σ) {row held row' : ReviewRow}
    (unfinished : row.finished = false) (claimed : held.retryCount = row.retryCount)
    (status : row'.status = (e.final cfg held).1) (retries : row'.retryCount = (e.final cfg held).2) :
    row.spent cfg + 1 ≤ row'.spent cfg := by
  have one : 1 ≤ cfg.attempts := Nat.le_max_left _ _
  unfold Ending.final at status retries
  simp only [ReviewRow.spent, unfinished, Bool.false_eq_true, if_false]
  cases retry : e.retry with
  | none =>
    simp only [retry] at status
    have finished : row'.finished = true := by simp [ReviewRow.finished, status]
    simp only [finished, if_true]
    omega
  | some willRetry =>
    simp only [retry] at status retries
    by_cases letters : DeadLetters cfg willRetry held
    · rw [if_pos letters] at status
      have finished : row'.finished = true := by simp [ReviewRow.finished, status]
      simp only [finished, if_true]
      omega
    · -- given back, so another attempt is left
      rw [if_neg letters] at status
      have given : row'.finished = false := by simp [ReviewRow.finished, status]
      have left : row.retryCount + 1 < cfg.maxReviewRetries := by
        simp only [DeadLetters, not_or, not_le] at letters
        exact claimed ▸ letters.2
      simp only [given, Bool.false_eq_true, if_false, retries, claimed, Config.attempts]
      omega

/-! ### Nothing else gets ahead -/

theorem Gate.Step.began {v : View σ} {m : Move σ} {g : Gate} {phase : GatePhase}
    {st : Option (Stmt σ)} (step : g.Step cfg v m phase st) {start : Time}
    (h : phase.began = some start) : st = none ∧ (g.phase.began = some start ∨ start = v.now) := by
  cases step with
  | begun verdict here => exact ⟨rfl, .inr (Option.some.inj h).symm⟩
  | locked verdict start' here free | timed start' here | persisted start' code here free
  | unpersisted start' code r here =>
    rw [here]
    exact ⟨rfl, .inl h⟩
  | checked verdict start' here =>
    rw [here]
    rcases Gate.checked_cases v.db g.review verdict start' with eq | ⟨_, eq⟩ | eq <;>
      exact ⟨rfl, .inl (by rw [eq] at h; exact h)⟩
  | counted start' since here =>
    rw [here]
    rcases Gate.counted_cases cfg v.db g.review start' since with eq | ⟨_, eq⟩ <;>
      exact ⟨rfl, .inl (by rw [eq] at h; exact h)⟩
  | inserted start' here free =>
    rw [here]
    rcases Gate.inserted_cases v.db g.review g.eventId start' with ⟨row, _, eq⟩ | eq <;>
      exact ⟨rfl, .inl (by rw [eq] at h; exact h)⟩
  | _ => cases h

/-- A step of the gate that writes: an audit row, or the end of its transaction. -/
theorem Gate.Step.writes {v : View σ} {m : Move σ} {g : Gate} {phase : GatePhase} {row : ReviewRow}
    (step : g.Step cfg v m phase (some (.putReview row))) (clean : Clean v.db) (sound : g.Sound v.db)
    (ρ : Time) (id : Uuid) : before ρ id row = false ∨ g.phase.began.any (· ≤ ρ) = true := by
  rcases step.put_cases clean sound rfl with rejected | ⟨start, admitting, rfl⟩
  · exact .inl (by simp [before, rejected])
  · have began : g.phase.began = some start := by
      rcases admitting with here | ⟨_, here⟩ <;> rw [here] <;> rfl
    by_cases early : start ≤ ρ
    · exact .inr (by simp [began, early])
    · exact .inl (by simp [before, gatedRow, early])

/-- What any steps leave of the reviews received up to a time that has passed. -/
structure Later (ρ : Time) (id : Uuid) (s t : State σ) : Prop where
  now : s.now ≤ t.now
  keeps : Keeps s.db t.db
  upTo : t.upTo ρ id ≤ s.upTo ρ id

variable {ρ : Time} {id : Uuid} {s s' t u : State σ}

theorem ReviewRow.SameSubmission.before {row row' : ReviewRow} (same : row.SameSubmission row')
    (accepted : row.Accepted) (accepted' : row'.Accepted) :
    Review.before ρ id row' = Review.before ρ id row := by
  rw [ReviewRow.Accepted] at accepted accepted'
  rw [same] at accepted' ⊢
  simp [Review.before, accepted, accepted']

theorem Later.refl (ρ : Time) (id : Uuid) (s : State σ) : Later ρ id s s :=
  ⟨le_rfl, fun _ row found accepted => ⟨row, found, accepted, rfl⟩, le_rfl⟩

theorem Later.trans (h : Later ρ id s t) (h' : Later ρ id t u) : Later ρ id s u where
  now := h.now.trans h'.now
  keeps k row found accepted := by
    obtain ⟨row', found', accepted', same⟩ := h.keeps k row found accepted
    obtain ⟨row'', found'', accepted'', same'⟩ := h'.keeps k row' found' accepted'
    refine ⟨row'', found'', accepted'', ?_⟩
    rw [ReviewRow.SameSubmission] at same same' ⊢
    rw [same', same]
  upTo := h'.upTo.trans h.upTo

/-- Updates put no review before another. -/
theorem Touches.count_before_le (ρ : Time) (id : Uuid) {db : Db σ} {written : List Uuid}
    {st : Option (Stmt σ)} (touch : Touches db written st)
    (outside : ∀ row, st = some (.putReview row) → before ρ id row = false) :
    (db.after st).reviews.count (before ρ id) ≤ db.reviews.count (before ρ id) :=
  touch.count_le (fun row rejected => by simp [before, rejected])
    (fun _ _ same accepted accepted' => same.before accepted accepted') outside

/-- A transaction that begins now is received later, one that has begun before comes in once. -/
theorem Later.step (sound : s.Sound) {a : Action σ} (step : s.step cfg a = some s')
    (passed : ρ < s.now) : Later ρ id s s' := by
  have keeps : Keeps s.db s'.db := by
    obtain ⟨st, written, touch, db⟩ := sound.touches step
    rw [db]
    exact touch.keeps
  cases State.stepped step with
  | tick d => exact ⟨by simp, keeps, le_rfl⟩
  | request r =>
    refine ⟨le_rfl, keeps, ?_⟩
    have idle : Call.entering ρ (r.call : Call σ) = false := by cases r <;> rfl
    simp [State.upTo, idle]
  | worker i m w phase st here ws =>
    refine ⟨le_rfl, keeps, ?_⟩
    have counted := Pool.countP_set (Call.entering ρ) here (.worker (w.enter phase))
    have touch := ws.touches (sound.calls _ _ here)
    have reviews := touch.count_before_le ρ id fun row put =>
      absurd rfl ((ws.updates put).1 row)
    simp only [Call.entering, Bool.false_eq_true, if_false, add_zero] at counted
    exact Nat.add_le_add reviews counted.le
  | starter i m b phase st here bs =>
    refine ⟨le_rfl, keeps, ?_⟩
    have counted := Pool.countP_set (Call.entering ρ) here (.starter (b.enter phase))
    have reviews := bs.touches.count_before_le ρ id fun row put => by
      rcases bs.stmt_cases put with ⟨eq, -⟩ | ⟨ids, eq, -⟩ | ⟨row', eq, -⟩ <;> cases eq
    simp only [Call.entering, Bool.false_eq_true, if_false, add_zero] at counted
    exact Nat.add_le_add reviews counted.le
  | gate i m g phase st here gs =>
    refine ⟨le_rfl, keeps, ?_⟩
    have counted := Pool.countP_set (Call.entering ρ) here (.gate (g.enter phase))
    have touch := sound.gate here gs
    -- where the call enters after its step, it entered before and has written nothing
    have entered : phase.began.any (· ≤ ρ) = true →
        st = none ∧ g.phase.began.any (· ≤ ρ) = true := by
      intro h
      cases began : phase.began with
      | none => simp [began] at h
      | some start =>
        have early : start ≤ ρ := by simpa [began] using h
        obtain ⟨none, old | new⟩ := gs.began began
        · exact ⟨none, by simpa [old] using early⟩
        · have now : start = s.now := new
          exact absurd passed (now ▸ early).not_gt
    rw [show Call.entering ρ (.gate g : Call σ) = g.phase.began.any (· ≤ ρ) from rfl,
      show Call.entering ρ (.gate (g.enter phase) : Call σ) = phase.began.any (· ≤ ρ) from rfl]
      at counted
    unfold State.upTo
    dsimp only
    obtain none | ⟨row, wrote⟩ := gs.puts
    · rw [none]
      simp only [Db.after]
      cases enters : phase.began.any (· ≤ ρ) with
      | false =>
        simp only [enters, Bool.false_eq_true, if_false] at counted
        omega
      | true =>
        simp only [enters, (entered enters).2, if_true] at counted
        omega
    · have ended : phase.began.any (· ≤ ρ) = false := by
        cases enters : phase.began.any (· ≤ ρ) with
        | false => rfl
        | true =>
          rw [(entered enters).1] at wrote
          cases wrote
      simp only [ended, Bool.false_eq_true, if_false] at counted
      subst wrote
      rcases gs.writes sound.clean (sound.calls _ _ here) ρ id with outside | entering
      · have reviews := touch.count_before_le ρ id fun row' put => by
          cases put
          exact outside
        omega
      · have reviews := s.db.reviews.count_put_le row (before ρ id)
        simp only [entering, if_true] at counted
        change (s.db.reviews.put row).count (before ρ id) + _ ≤ _
        omega

theorem Later.batch {i : ℕ} {x : State σ × List (Closing σ)} (sound : s.Sound) (passed : ρ < s.now)
    (run : State.BatchRun cfg (Alone i) i s x) : Later ρ id s x.1 := by
  refine (Runs.Reachable.invariant (P := fun y => y.1.Sound ∧ Later ρ id s y.1) ?_ ?_ run).2
  · intro y start
    rw [start.1]
    exact ⟨sound, .refl ρ id s⟩
  · intro y a z _ h step _
    have step := (Runs.recorded_eq_some.mp step).1
    exact ⟨h.1.step step, h.2.trans (.step h.1 step (passed.trans_le h.2.now))⟩

/-! ### What a batch does to those ahead -/

/-- Some reviews have used up an attempt more, and the other accepted ones are at most swept. -/
structure Settles (cfg : Config σ) (db db' : Db σ) (ids : List Uuid) : Prop where
  settled : ∀ k ∈ ids, ∃ r r', db.reviews.find? k = some r ∧ r.Accepted ∧
    db'.reviews.find? k = some r' ∧ r.spent cfg + 1 ≤ r'.spent cfg
  others : ∀ k r, db.reviews.find? k = some r → r.Accepted → k ∉ ids →
    ∃ r', db'.reviews.find? k = some r' ∧ Swept r r'

theorem Beside.settles {db db' : Db σ} (beside : Beside db db') : Settles cfg db db' [] :=
  ⟨by simp, fun k r found accepted _ => beside.reviews k r found accepted⟩

theorem Swept.spent {r r' : ReviewRow} (swept : Swept r r') : r'.spent cfg = r.spent cfg := by
  rcases swept with rfl | ⟨processing, rfl⟩
  · rfl
  · exact ReviewRow.spent_of_retryCount (by simp [ReviewRow.finished, processing])
      (by simp [ReviewRow.finished]) rfl

theorem Settles.weigh {db db' : Db σ} {ids : List Uuid} (settles : Settles cfg db db' ids)
    (keeps : Keeps db db') (distinct : ids.Nodup)
    (ahead : ∀ k ∈ ids, ∀ r, db.reviews.find? k = some r → before ρ id r = true) :
    db.reviews.weigh (spentBefore cfg ρ id) + ids.length ≤
      db'.reviews.weigh (spentBefore cfg ρ id) := by
  -- an accepted review is before the other afterwards exactly if it was
  have same : ∀ k r r', db.reviews.find? k = some r → r.Accepted → db'.reviews.find? k = some r' →
      before ρ id r' = before ρ id r := by
    intro k r r' found accepted found'
    obtain ⟨r'', found'', accepted', same⟩ := keeps k r found accepted
    obtain rfl := Option.some.inj (found''.symm.trans found')
    exact same.before accepted accepted'
  refine Table.weigh_add_length_le distinct fun k => ?_
  by_cases taken : k ∈ ids
  · obtain ⟨r, r', found, accepted, found', more⟩ := settles.settled k taken
    have first := ahead k taken r found
    have first' := (same k r r' found accepted found').trans first
    simpa [Table.weightAt, found, found', spentBefore, first, first', taken] using more
  · rw [if_neg taken, Nat.add_zero]
    cases found : db.reviews.find? k with
    | none => simp [Table.weightAt, found]
    | some r =>
      by_cases accepted : r.Accepted
      · obtain ⟨r', found', swept⟩ := settles.others k r found accepted taken
        simp [Table.weightAt, found, found', spentBefore, same k r r' found accepted found',
          swept.spent]
      · have rejected : r.status = .gateRejected := not_not.mp accepted
        simp [Table.weightAt, found, spentBefore, before, rejected]

/-- A batch that passes over a review it could have taken is full, of earlier ones. -/
theorem Picks.passing {db : Db σ} {limit : ℕ} {skipped ids : List Uuid}
    (picks : Picks db limit skipped ids) {row : ReviewRow}
    (found : db.reviews.find? row.id = some row) (gated : row.status = .gated)
    (unlocked : row.id ∉ skipped) (passed : row.id ∉ ids) :
    ids.length = limit ∧
      ∀ k ∈ ids, ∀ r, db.reviews.find? k = some r → before row.receivedAt row.id r = true := by
  obtain ⟨distinct, within, length, first⟩ := picks
  have mine : row ∈ db.reviews.rows.filter fun r => r.status = .gated ∧ r.id ∉ skipped :=
    List.mem_filter.mpr ⟨Table.mem_of_find? found, decide_eq_true ⟨gated, unlocked⟩⟩
  constructor
  · have room := (List.subperm_of_subset (List.nodup_cons.mpr ⟨passed, distinct⟩)
      (List.cons_subset.mpr ⟨List.mem_map_of_mem mine, within⟩)).length_le
    rw [List.length_cons, List.length_map] at room
    omega
  · intro k picked r there
    obtain ⟨r', open_, rfl⟩ := List.mem_map.mp (within k picked)
    have there' := Table.find?_of_mem (List.mem_filter.mp open_).1
    obtain rfl := Option.some.inj (there'.symm.trans there)
    have earlier := first r' open_ picked row mine passed
    have status := (of_decide_eq_true (List.mem_filter.mp open_).2).1
    have other : r'.id ≠ row.id := fun same => passed (same ▸ picked)
    simp [before, status, earlier, other]

theorem State.claimed_picks {s₁ : State σ} {i : ℕ} {batchId : Uuid} {skipped ids : List Uuid}
    (ready : s.calls[i]? = some (.worker ⟨batchId, .ready⟩))
    (claimed : s.step cfg (.act i (.claim skipped ids .ok)) = some s₁) :
    Picks s.db cfg.maxReviewsPerBatch skipped ids := by
  obtain ⟨w, st, moved, -⟩ := State.acted_worker ready claimed
  simp only [Worker.advance] at moved
  split at moved
  next picks => exact picks
  next => cases moved

theorem Alone.settles {s₁ : State σ} {i : ℕ} {batchId : Uuid} {skipped ids : List Uuid}
    {log : List (Closing σ)} {stats : Stats} (sound : s.Sound)
    (ready : s.calls[i]? = some (.worker ⟨batchId, .ready⟩))
    (claimed : s.step cfg (.act i (.claim skipped ids .ok)) = some s₁)
    (run : State.BatchRun cfg (Alone i) i s₁ (t, log))
    (returned : t.calls[i]? = some (.worker ⟨batchId, .completing stats⟩)) :
    Settles cfg s.db t.db ids := by
  have picks := State.claimed_picks ready claimed
  have between := (InBatch.run (fun _ _ alone => alone) sound ready claimed run).finished returned
  have groups : log.map (·.group) = groupByTarget (claimedRows s.db batchId ids) := by
    simpa using between.groups
  have same := claimedRows_ids batchId fun k picked =>
    (picks.gated picked).imp fun _ found => found.1
  constructor
  · intro k picked
    obtain ⟨r, found, gated⟩ := picks.gated picked
    obtain ⟨held, member, rfl⟩ := List.mem_map.mp (same ▸ picked)
    -- the claim leaves the retries as they are
    have retries : held.retryCount = r.retryCount := by
      obtain ⟨k, taken, lookup⟩ := List.mem_filterMap.mp member
      obtain ⟨r', found', rfl⟩ := Option.map_eq_some_iff.mp lookup
      rw [Stmt.onReview_id, Table.key_of_find? found', found'] at found
      obtain rfl := Option.some.inj found
      simp only [Stmt.onReview]
      split <;> rfl
    obtain ⟨c, hc, within⟩ := closing_of_row groups member
    obtain ⟨r', found', status, count⟩ := between.stand.left c hc held within
    exact ⟨r, r', found, by simp [gated], found',
      c.ending.final_spent (by simp [ReviewRow.finished, gated]) retries status count⟩
  · intro k r found accepted other
    exact between.stand.others k r found accepted fun member => other (same ▸ member)

/-! ### Batch after batch -/

/-- What any number of batches leave that have all passed a review over. -/
structure Overtaken (cfg : Config σ) (row : ReviewRow) (s t : State σ) (taken : ℕ) : Prop where
  sound : t.Sound
  later : Later row.receivedAt row.id s t
  found : t.db.reviews.find? row.id = some row
  weight : s.db.reviews.weigh (spentBefore cfg row.receivedAt row.id) + taken ≤
    t.db.reviews.weigh (spentBefore cfg row.receivedAt row.id)

theorem Overtaken.next {row : ReviewRow} {taken : ℕ} {ids : List Uuid}
    (h : Overtaken cfg row s t taken) (gated : row.status = .gated) (sound : u.Sound)
    (later : Later row.receivedAt row.id t u) (settles : Settles cfg t.db u.db ids)
    (distinct : ids.Nodup) (passed : row.id ∉ ids)
    (ahead : ∀ k ∈ ids, ∀ r, t.db.reviews.find? k = some r →
      before row.receivedAt row.id r = true) : Overtaken cfg row s u (taken + ids.length) where
  sound := sound
  later := h.later.trans later
  found := by
    obtain ⟨row', found', swept⟩ := settles.others _ row h.found (by simp [gated]) passed
    rcases swept with rfl | ⟨processing, -⟩
    · exact found'
    · cases gated.symm.trans processing
  weight := by
    have before := h.weight
    have after := settles.weigh later.keeps distinct ahead
    omega

variable {κ : Type} {s₀ : State σ} {rounds : List (Round κ σ)}

theorem State.Rounds.overtaken (run : State.Rounds cfg (fun _ => Alone) s₀ rounds s)
    (sound : s₀.Sound) {row : ReviewRow} (found : s₀.db.reviews.find? row.id = some row)
    (gated : row.status = .gated) (received : row.receivedAt < s₀.now)
    (unlocked : ∀ b ∈ rounds, row.id ∉ b.skipped) (passed : ∀ b ∈ rounds, row.id ∉ b.rows.map (·.id)) :
    Overtaken cfg row s₀ s (rounds.length * cfg.maxReviewsPerBatch) := by
  induction run with
  | start => exact ⟨sound, .refl _ _ _, found, by simp⟩
  | apart run step apart ih =>
    have h := ih unlocked passed
    have now := received.trans_le h.later.now
    exact h.next gated (h.sound.step step) (.step h.sound step now)
      (apart.beside h.sound step).settles List.nodup_nil (by simp) (by simp)
  | @batch rounds s s₁ t given i batchId skipped ids log stats run ready claimed batch returned ih =>
    have h := ih (fun b member => unlocked b (List.mem_append_left _ member))
      fun b member => passed b (List.mem_append_left _ member)
    have now := received.trans_le h.later.now
    have picks := State.claimed_picks ready claimed
    have ids_eq := claimedRows_ids batchId fun k picked =>
      (picks.gated picked).imp fun _ there => there.1
    have skips := unlocked _ (List.mem_append_right _ List.mem_cons_self)
    have untaken := passed _ (List.mem_append_right _ List.mem_cons_self)
    rw [ids_eq] at untaken
    obtain ⟨full, ahead⟩ := picks.passing h.found gated skips untaken
    have claim : Later row.receivedAt row.id s s₁ := .step h.sound claimed now
    have later := claim.trans (.batch (h.sound.step claimed) (now.trans_le claim.now) batch)
    have done := (InBatch.run (fun _ _ alone => alone) h.sound ready claimed batch).sound
    have settles := Alone.settles h.sound ready claimed batch returned
    have after := h.next gated done later settles picks.1 untaken ahead
    rw [full] at after
    rwa [List.length_append, List.length_singleton, Nat.succ_mul]

theorem State.weigh_le_upTo (cfg : Config σ) (s : State σ) (ρ : Time) (id : Uuid) :
    s.db.reviews.weigh (spentBefore cfg ρ id) ≤ cfg.attempts * s.upTo ρ id := by
  have bound : ∀ row, spentBefore cfg ρ id row ≤ cfg.attempts := by
    intro row
    unfold spentBefore
    split
    · exact row.spent_le cfg
    · exact Nat.zero_le _
  have outside : ∀ row, before ρ id row = false → spentBefore cfg ρ id row = 0 :=
    fun row other => by simp [spentBefore, other]
  refine (s.db.reviews.weigh_le_mul_count bound outside).trans ?_
  exact Nat.mul_le_mul_left _ (Nat.le_add_right _ _)

theorem State.upTo_le_ahead (cfg : Config σ) (s : State σ) (ρ : Time) (id : Uuid) :
    cfg.attempts * s.upTo ρ id ≤
      s.db.reviews.weigh (spentBefore cfg ρ id) + cfg.attempts * s.ahead ρ id := by
  -- a finished review has used up its attempts
  have full : ∀ row, before ρ id row = true →
      (before ρ id row && !row.finished) = true ∨ cfg.attempts ≤ spentBefore cfg ρ id row := by
    intro row first
    cases finished : row.finished with
    | false => exact .inl (by simp [first])
    | true => exact .inr (by simp [spentBefore, first, ReviewRow.spent, finished])
  have rows := s.db.reviews.mul_count_le_weigh_add full
  simp only [State.upTo, State.ahead, Nat.mul_add]
  omega

/-- A review that waits is taken before more batches have finished than those ahead of it can fill,
whatever arrives meanwhile, whatever the engine answers and whichever statements of the batches
fail without effect, unless its row is locked when a batch claims. -/
theorem taken_in_turn {ok : State σ → Action σ → Prop} (reachable : State.ReachableIdle cfg ok s₀)
    (run : State.Rounds cfg (fun _ => Alone) s₀ rounds s) {row : ReviewRow}
    (found : s₀.db.reviews.find? row.id = some row) (gated : row.status = .gated)
    (received : row.receivedAt < s₀.now) (unlocked : ∀ b ∈ rounds, row.id ∉ b.skipped)
    (enough : cfg.attempts * s₀.ahead row.receivedAt row.id <
      rounds.length * cfg.maxReviewsPerBatch) :
    ∃ b ∈ rounds, row.id ∈ b.rows.map (·.id) := by
  by_contra never
  have passed : ∀ b ∈ rounds, row.id ∉ b.rows.map (·.id) :=
    fun b member taken => never ⟨b, member, taken⟩
  have overtaken := run.overtaken (State.sound_of_idle reachable) found gated received unlocked
    passed
  have most := s.weigh_le_upTo cfg row.receivedAt row.id
  have before := s₀.upTo_le_ahead cfg row.receivedAt row.id
  have later := Nat.mul_le_mul_left cfg.attempts overtaken.later.upTo
  have weight := overtaken.weight
  omega

/-- A batch takes one review, and a review is tried once. -/
def oneByOne : Config ℕ := { defaults with maxReviewsPerBatch := 1, maxReviewRetries := 1 }

/-- The reviews 7 and 8 are accepted on two ticks, and the batch 77 is about to claim. -/
def beforeTurns : List (Action ℕ) :=
  .request (.gateAndStore (sampleReview 7 2) none) :: untilCheck 0 ++ checkAndCommit 0 ++
  .tick 1 :: .request (.gateAndStore (sampleReview 8 3) none) :: untilCheck 1 ++
    checkAndCommit 1 ++
  .tick 1 :: .request .startBatch :: startsBatch 2 77 ++ [.request (.runBatchToCompletion 77)]

/-- The engine fails for the one review of a batch. -/
def failsForOne (i : ℕ) : List (Action ℕ) :=
  [.act i (.reply .ok), .act i (.engine (.error none)), .act i (.reply .ok)]

/-- A batch is over, and the next one, 78, is about to claim. -/
def betweenTurns : List (Action ℕ) :=
  .act 3 (.reply .ok) :: .request .startBatch :: startsBatch 4 78 ++
    [.request (.runBatchToCompletion 78)]

/-- The engine fails for the first of two reviews, and the second batch takes the other one. -/
theorem taken_in_turn_second :
    ∃ (s₀ s : State ℕ) (rounds : List (Round Unit ℕ)) (row : ReviewRow),
    Runs.perform (State.step oneByOne) .start beforeTurns = some s₀ ∧
    s₀.db.reviews.find? row.id = some row ∧ s₀.ahead row.receivedAt row.id = 1 ∧
    State.Rounds oneByOne (fun _ => Alone) s₀ rounds s ∧ rounds.length = 2 ∧
    ∃ b ∈ rounds, row.id ∈ b.rows.map (·.id) := by
  obtain ⟨s₀, accepted, row, found, gated, received, ahead, ready, s₁, claimed, ⟨t, log⟩, run,
      returned, u, later, ready', u₁, claimed', ⟨s, log'⟩, run', returned'⟩ :
      ∃ s₀, Runs.perform (State.step oneByOne) .start beforeTurns = some s₀ ∧
        ∃ row, s₀.db.reviews.find? 8 = some row ∧ row.status = .gated ∧
          row.receivedAt < s₀.now ∧ s₀.ahead row.receivedAt row.id = 1 ∧
        s₀.calls[3]? = some (.worker ⟨77, .ready⟩) ∧
        ∃ s₁, s₀.step oneByOne (.act 3 (.claim [] [7] .ok)) = some s₁ ∧
        ∃ x, Runs.performGuarded (Runs.recorded (State.step oneByOne) (noteEndings 3))
            (fun x a => Alone 3 x.1 a) (s₁, []) (failsForOne 3) = some x ∧
          x.1.calls[3]? = some (.worker ⟨77, .completing ⟨1, 0, 0, 1, 0⟩⟩) ∧
        ∃ u, Runs.performGuarded (State.step oneByOne) Apart x.1 betweenTurns = some u ∧
          u.calls[5]? = some (.worker ⟨78, .ready⟩) ∧
        ∃ u₁, u.step oneByOne (.act 5 (.claim [] [8] .ok)) = some u₁ ∧
        ∃ y, Runs.performGuarded (Runs.recorded (State.step oneByOne) (noteEndings 5))
            (fun x a => Alone 5 x.1 a) (u₁, []) (failsForOne 5) = some y ∧
          y.1.calls[5]? = some (.worker ⟨78, .completing ⟨1, 0, 0, 1, 0⟩⟩) :=
    ⟨_, rfl, _, rfl, rfl, by decide, by decide, rfl, _, rfl, _, rfl, rfl, _, rfl, rfl, _, rfl, _,
      rfl, rfl⟩
  have id : row.id = 8 := Table.key_of_find? found
  rw [← id] at found
  have first : State.Rounds oneByOne (fun _ => Alone) s₀ _ t :=
    .batch () .start ready claimed (.performGuarded (.start ⟨rfl, rfl⟩) run) returned
  have second := State.Rounds.batch () (first.between (.performGuarded (.start rfl) later)) ready'
    claimed' (.performGuarded (.start ⟨rfl, rfl⟩) run') returned'
  have enough : oneByOne.attempts * s₀.ahead row.receivedAt row.id < 2 * 1 := by
    rw [ahead]
    decide
  have idle : State.Idle (State.start : State ℕ) := ⟨rfl, fun _ _ found _ => nomatch found⟩
  exact ⟨s₀, s, _, row, accepted, found, ahead, second, rfl,
    taken_in_turn (.perform (.start idle) accepted) second found gated received (by simp) enough⟩

end DostReview.Review
