import DostReview.Review.Endings

/-!
# How far a batch has come

What the record of the endings says of the tables and of the statistics, at every await of
`run_batch`: the reviews of the closed profiles are as their endings leave them, those to
come still wait, and no other review or reputation has been touched.
-/
namespace DostReview.Review

variable {σ : Type} {cfg : Config σ} {db db' : Db σ} {v : View σ} {m : Move σ}
  {st : Option (Stmt σ)}

/-! ### The tables -/

/-- The review has this status and these retries. -/
def Left (db : Db σ) (row : ReviewRow) (final : ReviewStatus × ℕ) : Prop :=
  ∃ r, db.reviews.find? row.id = some r ∧ r.status = final.1 ∧ r.retryCount = final.2

/-- The review is accepted, with the retries it was claimed with. -/
def Waiting (db : Db σ) (row : ReviewRow) : Prop :=
  ∃ r, db.reviews.find? row.id = some r ∧ r.Accepted ∧ r.retryCount = row.retryCount

/-- The same, unless a requeue has taken it out of `PROCESSING`. -/
def Swept (r r' : ReviewRow) : Prop :=
  r' = r ∨ r.status = .processing ∧ r' = { r with status := .gated }

theorem Swept.trans {r r' r'' : ReviewRow} (h : Swept r r') (h' : Swept r' r'') : Swept r r'' := by
  rcases h with rfl | ⟨processing, rfl⟩
  · exact h'
  · rcases h' with rfl | ⟨again, -⟩
    · exact .inr ⟨processing, rfl⟩
    · cases again

theorem Swept.accepted {r r' : ReviewRow} (h : Swept r r') (accepted : r.Accepted) :
    r'.Accepted := by
  rcases h with rfl | ⟨-, rfl⟩
  · exact accepted
  · simp

theorem Swept.retryCount {r r' : ReviewRow} (h : Swept r r') : r'.retryCount = r.retryCount := by
  rcases h with rfl | ⟨-, rfl⟩ <;> rfl

/-- What the gate and the starter do to accepted reviews and to reputations. -/
structure Beside (db db' : Db σ) : Prop where
  reviews : ∀ id r, db.reviews.find? id = some r → r.Accepted →
    ∃ r', db'.reviews.find? id = some r' ∧ Swept r r'
  reputations : db'.reputations = db.reputations

theorem Beside.refl (db : Db σ) : Beside db db :=
  ⟨fun _ r found _ => ⟨r, found, .inl rfl⟩, rfl⟩

theorem Left.beside {row : ReviewRow} {e : Ending σ} (h : Left db row (e.final cfg row))
    (beside : Beside db db') : Left db' row (e.final cfg row) := by
  obtain ⟨r, found, status, retries⟩ := h
  have accepted : r.Accepted := by
    rw [ReviewRow.Accepted, status]
    exact e.final_accepted row
  obtain ⟨r', found', swept⟩ := beside.reviews _ _ found accepted
  rcases swept with rfl | ⟨processing, -⟩
  · exact ⟨r', found', status, retries⟩
  · -- a requeue takes rows in `PROCESSING` only, and no ending leaves one there
    exact absurd (status.symm.trans processing) (e.final_ne_processing row)

theorem Waiting.beside {row : ReviewRow} (h : Waiting db row) (beside : Beside db db') :
    Waiting db' row := by
  obtain ⟨r, found, accepted, retries⟩ := h
  obtain ⟨r', found', swept⟩ := beside.reviews _ _ found accepted
  exact ⟨r', found', swept.accepted accepted, swept.retryCount.trans retries⟩

section

variable (cfg) (start : Db σ) (rows : List ReviewRow)

/-- The reviews of a batch with these profiles closed and those to come: nothing but a requeue
has moved the other accepted ones. -/
structure Stand (db : Db σ) (log : List (Closing σ)) (later : List (Uuid × List ReviewRow)) :
    Prop where
  left : ∀ c ∈ log, ∀ row ∈ c.rows, Left db row (c.ending.final cfg row)
  waiting : ∀ g ∈ later, ∀ row ∈ g.2, Waiting db row
  others : ∀ id r, start.reviews.find? id = some r → r.Accepted → id ∉ rows.map (·.id) →
    ∃ r', db.reviews.find? id = some r' ∧ Swept r r'

/-- The reputations that the closed profiles have written. -/
structure Wrote (db : Db σ) (log : List (Closing σ)) : Prop where
  written : ∀ c ∈ log, ∀ out, c.ending = .committed out →
    db.reputations.find? c.profileId = some (reputationRow c.profileId out)
  unwritten : ∀ p, (∀ c ∈ log, ∀ out, c.ending = .committed out → c.profileId ≠ p) →
    db.reputations.find? p = start.reputations.find? p

/-- Between two profiles. -/
structure Between (db : Db σ) (log : List (Closing σ)) (rest : List (Uuid × List ReviewRow))
    (stats : Stats) : Prop where
  groups : log.map (·.group) ++ rest = groupByTarget rows
  stats : stats = tallies cfg log { totalReviews := rows.length }
  stand : Stand cfg start rows db log rest
  wrote : Wrote start db log

/-- In the middle of settling a profile, with some of its reviews settled. -/
structure Underway (db : Db σ) (log : List (Closing σ)) (w : Work) (e : Ending σ)
    (early todo : List ReviewRow) (willRetry handler : Bool) : Prop where
  groups : log.map (·.group) ++ w.groups = groupByTarget rows
  rows_eq : w.rows = early ++ todo
  retry : e.retry = some willRetry
  first : handler = false → e = .settled willRetry
  stats : w.stats = settleAll cfg willRetry early
    (e.before cfg (tallies cfg log { totalReviews := rows.length }))
  stand : Stand cfg start rows db log w.rest
  left : ∀ row ∈ early, Left db row (e.final cfg row)
  wrote : Wrote start db log

/-- How far a batch has come. -/
def Progress (db : Db σ) (log : List (Closing σ)) : WorkerPhase σ → Prop
  | .ready => False
  | .loading w => Between cfg start rows db log w.groups w.stats
  | .processing w _ => Between cfg start rows db log w.groups w.stats
  | .committing w _ _ => Between cfg start rows db log w.groups w.stats
  | .settling w todo willRetry handler => ∃ closed e early,
    log = closed ++ [w.closing e] ∧
      Underway cfg start rows db closed w e early todo willRetry handler
  | .completing stats => Between cfg start rows db log [] stats
  | _ => True

end

variable {start : Db σ} {rows : List ReviewRow} {log : List (Closing σ)}
  {later rest : List (Uuid × List ReviewRow)} {w : Work} {e : Ending σ}

/-! ### What leaves the batch where it is -/

theorem Stand.beside (h : Stand cfg start rows db log later) (beside : Beside db db') :
    Stand cfg start rows db' log later where
  left c hc row hrow := (h.left c hc row hrow).beside beside
  waiting g hg row hrow := (h.waiting g hg row hrow).beside beside
  others id r found accepted other := by
    obtain ⟨r', found', swept⟩ := h.others id r found accepted other
    obtain ⟨r'', found'', again⟩ := beside.reviews _ _ found' (swept.accepted accepted)
    exact ⟨r'', found'', swept.trans again⟩

theorem Wrote.congr (h : Wrote start db log) (same : db'.reputations = db.reputations) :
    Wrote start db' log where
  written c hc out eq := by
    rw [same]
    exact h.written c hc out eq
  unwritten p none := by
    rw [same]
    exact h.unwritten p none

theorem Between.beside {stats : Stats} (h : Between cfg start rows db log rest stats)
    (beside : Beside db db') : Between cfg start rows db' log rest stats :=
  ⟨h.groups, h.stats, h.stand.beside beside, h.wrote.congr beside.reputations⟩

theorem Progress.beside {phase : WorkerPhase σ} (h : Progress cfg start rows db log phase)
    (beside : Beside db db') : Progress cfg start rows db' log phase := by
  cases phase with
  | ready => exact h
  | loading | processing | committing | completing => exact Between.beside h beside
  | settling =>
    obtain ⟨closed, e, early, same, h⟩ := h
    refine ⟨closed, e, early, same, h.groups, h.rows_eq, h.retry, h.first, h.stats,
      h.stand.beside beside, ?_, h.wrote.congr beside.reputations⟩
    exact fun row hrow => (h.left row hrow).beside beside
  | failing | requeueing | returned | gone => trivial

/-! ### Going on -/

theorem Between.next {stats : Stats} (h : Between cfg start rows db log rest stats) :
    Progress cfg start rows db log (nextProfile rest stats) := by
  cases rest with
  | nil => exact h
  | cons g rest => exact h

/-- A profile that is not committed writes no reputation. -/
theorem Wrote.settled {willRetry : Bool} (h : Wrote start db log)
    (retry : e.retry = some willRetry) : Wrote start db (log ++ [w.closing e]) where
  written c hc out eq := by
    rcases List.mem_append.mp hc with old | new
    · exact h.written c old out eq
    · obtain rfl := List.mem_singleton.mp new
      obtain rfl : e = .committed out := eq
      cases retry
  unwritten p none := h.unwritten p fun c hc => none c (List.mem_append_left _ hc)

theorem Underway.settle {early todo : List ReviewRow} {willRetry handler : Bool}
    (h : Underway cfg start rows db log w e early todo willRetry handler) :
    Progress cfg start rows db (log ++ [w.closing e]) (settle w todo willRetry handler) := by
  cases todo with
  | cons row todo => exact ⟨log, e, early, rfl, h⟩
  | nil =>
    -- the last review of the profile is settled
    have all : w.rows = early := by simpa using h.rows_eq
    apply Between.next
    constructor
    · rw [← h.groups]
      simp [Work.closing, Closing.group, Work.groups]
    · rw [tallies_snoc, h.stats]
      simp only [Ending.tally, Work.closing, h.retry, all]
    · refine ⟨fun c hc row hrow => ?_, h.stand.waiting, h.stand.others⟩
      rcases List.mem_append.mp hc with old | new
      · exact h.stand.left c old row hrow
      · obtain rfl := List.mem_singleton.mp new
        exact h.left row (all ▸ hrow)
    · exact h.wrote.settled h.retry

/-- The profile in hand is about to be settled. -/
theorem Between.settle (h : Between cfg start rows db log w.groups w.stats)
    (willRetry handler : Bool) :
    Progress cfg start rows db (log ++ [w.closing (.settled willRetry)])
      (settle w w.rows willRetry handler) := by
  have underway : Underway cfg start rows db log w (.settled willRetry) [] w.rows willRetry
      handler := by
    constructor
    · exact h.groups
    · rfl
    · rfl
    · exact fun _ => rfl
    · exact h.stats
    · -- the profile in hand waits no longer, and none of it is settled yet
      refine ⟨h.stand.left, fun g hg => ?_, h.stand.others⟩
      exact h.stand.waiting g (List.mem_cons_of_mem _ hg)
    · simp
    · exact h.wrote
  exact underway.settle

/-- A failure in the `try` block: all the reviews of the profile are about to be settled again. -/
theorem Underway.resettle {row : ReviewRow} {early todo : List ReviewRow} {willRetry : Bool}
    (h : Underway cfg start rows db log w e early (row :: todo) willRetry false) :
    Progress cfg start rows db (log ++ [w.closing (.resettled willRetry early)]) w.handle := by
  obtain rfl := h.first rfl
  -- the statistics keep what the first round has counted
  have underway : Underway cfg start rows db log w (.resettled willRetry early) [] w.rows true
      true := by
    constructor
    · exact h.groups
    · rfl
    · rfl
    · exact fun handled => nomatch handled
    · exact h.stats
    · exact h.stand
    · simp
    · exact h.wrote
  exact underway.settle

/-! ### What the statements of the batch do -/

/-- A statement on the profile in hand spares the others. -/
theorem Stand.spare (h : Stand cfg start rows db log later) {touched : List ReviewRow}
    (same : ∀ id, id ∉ touched.map (·.id) → db'.reviews.find? id = db.reviews.find? id)
    (within : touched ⊆ rows) (closed : ∀ c ∈ log, ∀ row ∈ c.rows, row.id ∉ touched.map (·.id))
    (coming : ∀ g ∈ later, ∀ row ∈ g.2, row.id ∉ touched.map (·.id)) :
    Stand cfg start rows db' log later where
  left c hc row hrow := by
    obtain ⟨r, found, final⟩ := h.left c hc row hrow
    exact ⟨r, (same _ (closed c hc row hrow)).trans found, final⟩
  waiting g hg row hrow := by
    obtain ⟨r, found, waits⟩ := h.waiting g hg row hrow
    exact ⟨r, (same _ (coming g hg row hrow)).trans found, waits⟩
  others id r found accepted other := by
    obtain ⟨r', found', swept⟩ := h.others id r found accepted other
    have untouched : id ∉ touched.map (·.id) := by
      intro mem
      obtain ⟨row, hrow, rfl⟩ := List.mem_map.mp mem
      exact other (List.mem_map_of_mem (within hrow))
    exact ⟨r', (same id untouched).trans found', swept⟩

/-- Where the profile in hand stands among the others. -/
theorem groups_in_hand (distinct : (rows.map (·.id)).Nodup)
    (groups : log.map (·.group) ++ w.groups = groupByTarget rows) :
    (w.rows ⊆ rows ∧ (w.rows.map (·.id)).Nodup) ∧
      (∀ c ∈ log, c.profileId ≠ w.profileId ∧ ∀ row ∈ c.rows, row.id ∉ w.rows.map (·.id)) ∧
      ∀ g ∈ w.rest, ∀ row ∈ g.2, row.id ∉ w.rows.map (·.id) := by
  have here : (w.profileId, w.rows) ∈ groupByTarget rows := by simp [← groups, Work.groups]
  -- two profiles share no row, as a row has one target and the claimed ids are distinct
  have apart : ∀ g ∈ log.map (·.group) ++ w.rest, g.1 ≠ w.profileId ∧
      ∀ row ∈ g.2, row.id ∉ w.rows.map (·.id) := by
    intro g hg
    obtain ⟨ne, ids⟩ := groups_apart distinct groups hg
    refine ⟨ne, fun row hrow mem => ?_⟩
    obtain ⟨row', hrow', same⟩ := List.mem_map.mp mem
    exact ids row hrow row' hrow' same.symm
  refine ⟨⟨fun row hrow => (mem_of_group here hrow).1, ?_⟩, fun c hc => ?_, fun g hg => ?_⟩
  · rw [show w.rows = _ from group_eq here]
    exact distinct.sublist (List.filter_sublist.map _)
  · exact apart c.group (List.mem_append_left _ (List.mem_map_of_mem hc))
  · exact (apart g (List.mem_append_right _ hg)).2

/-- Every claimed row belongs to a closed profile, those of its target. -/
theorem closing_of_row (groups : log.map (·.group) = groupByTarget rows) {row : ReviewRow}
    (claimed : row ∈ rows) : ∃ c ∈ log, row ∈ c.rows := by
  obtain ⟨g, hg, mem⟩ := mem_group claimed
  rw [← groups] at hg
  obtain ⟨c, hc, rfl⟩ := List.mem_map.mp hg
  exact ⟨c, hc, mem⟩

theorem closing_rows (groups : log.map (·.group) = groupByTarget rows) {c : Closing σ}
    (hc : c ∈ log) : c.rows = rows.filter fun row => row.targetProfileId = c.profileId := by
  apply group_eq (g := c.group)
  rw [← groups]
  exact List.mem_map_of_mem hc

theorem Between.commit (h : Between cfg start rows db log w.groups w.stats)
    (distinct : (rows.map (·.id)).Nodup) (out : EngineOutput σ) (now : Time) :
    Progress cfg start rows ((w.commit out now).exec db) (log ++ [w.closing (.committed out)])
      w.committed := by
  obtain ⟨⟨within, -⟩, closed, coming⟩ := groups_in_hand distinct h.groups
  have plain : ∀ row, w.commit out now ≠ .putReview row := by simp [Work.commit]
  have same : ∀ id, id ∉ w.rows.map (·.id) →
      ((w.commit out now).exec db).reviews.find? id = db.reviews.find? id := by
    intro id untouched
    apply Stmt.find?_exec_of_unmatched plain
    rintro row rfl
    simp only [Work.commit, Stmt.onReview, untouched, if_false]
  have stand : Stand cfg start rows ((w.commit out now).exec db) log w.rest := by
    apply Stand.spare _ same within (fun c hc => (closed c hc).2) coming
    exact ⟨h.stand.left, fun g hg => h.stand.waiting g (List.mem_cons_of_mem _ hg), h.stand.others⟩
  have reputation : ∀ p, ((w.commit out now).exec db).reputations.find? p =
      if p = w.profileId then some (reputationRow w.profileId out) else db.reputations.find? p :=
    fun p => Table.find?_put db.reputations _ p
  apply Between.next
  constructor
  · rw [← h.groups]
    simp [Work.closing, Closing.group, Work.groups]
  · rw [tallies_snoc, ← h.stats]
    rfl
  · refine ⟨fun c hc row hrow => ?_, stand.waiting, stand.others⟩
    rcases List.mem_append.mp hc with old | new
    · exact stand.left c old row hrow
    · -- the transaction's UPDATE finds each claimed review of the profile
      obtain rfl := List.mem_singleton.mp new
      obtain ⟨r, found, -, retries⟩ := h.stand.waiting _ List.mem_cons_self row hrow
      have key := Table.key_of_find? found
      have mine : row.id ∈ w.rows.map (·.id) := List.mem_map_of_mem hrow
      refine ⟨_, Stmt.find?_exec_of_found plain found, ?_⟩
      simpa [Work.commit, Stmt.onReview, key, mine, Ending.final, Ending.retry, Work.closing]
        using retries
  · constructor
    · intro c hc out' eq
      rw [reputation]
      rcases List.mem_append.mp hc with old | new
      · rw [if_neg (closed c old).1]
        exact h.wrote.written c old out' eq
      · obtain rfl := List.mem_singleton.mp new
        cases eq
        exact if_pos rfl
    · intro p none
      rw [reputation, if_neg, h.wrote.unwritten p fun c hc => none c (List.mem_append_left _ hc)]
      exact fun same => none _ (List.mem_append_right _ List.mem_cons_self) out rfl same.symm

theorem Underway.settled {row : ReviewRow} {early todo : List ReviewRow} {willRetry handler : Bool}
    (h : Underway cfg start rows db log w e early (row :: todo) willRetry handler)
    (distinct : (rows.map (·.id)).Nodup) (present : ∃ r, db.reviews.find? row.id = some r)
    (now : Time) :
    Underway cfg start rows ((settleStmt cfg willRetry row now).exec db) log
      { w with stats := settleStats cfg willRetry row w.stats } e (early ++ [row]) todo
      willRetry handler := by
  obtain ⟨⟨within, nodup⟩, closed, coming⟩ := groups_in_hand distinct h.groups
  have plain : ∀ held, (settleStmt cfg willRetry row now : Stmt σ) ≠ .putReview held :=
    fun _ => settleStmt_ne (by simp) (by simp) _ _ _ _
  have same : ∀ id, id ≠ row.id →
      ((settleStmt cfg willRetry row now).exec db).reviews.find? id = db.reviews.find? id := by
    intro id other
    apply Stmt.find?_exec_of_unmatched plain
    rintro held rfl
    exact onReview_settle_of_ne other
  have mine : row ∈ w.rows := by simp [h.rows_eq]
  constructor
  · exact h.groups
  · simp [h.rows_eq]
  · exact h.retry
  · exact h.first
  · rw [settleAll_snoc, ← h.stats]
  · have others : ∀ id, id ∉ w.rows.map (·.id) →
        ((settleStmt cfg willRetry row now).exec db).reviews.find? id = db.reviews.find? id := by
      intro id untouched
      exact same id fun eq => untouched (eq ▸ List.mem_map_of_mem mine)
    exact h.stand.spare others within (fun c hc => (closed c hc).2) coming
  · intro held mem
    rcases List.mem_append.mp mem with settled | now_
    · -- settled before, and another review
      obtain ⟨r, found, final⟩ := h.left held settled
      refine ⟨r, (same _ ?_).trans found, final⟩
      rw [h.rows_eq, List.map_append, List.nodup_append] at nodup
      exact nodup.2.2 _ (List.mem_map_of_mem settled) _ (List.mem_map_of_mem List.mem_cons_self)
    · -- the review in hand: the UPDATE writes the count it was claimed with, plus one
      obtain rfl := List.mem_singleton.mp now_
      obtain ⟨r, found⟩ := present
      have key := Table.key_of_find? found
      refine ⟨_, Stmt.find?_exec_of_found plain found, ?_⟩
      simp only [Ending.final, h.retry, settleStmt]
      split <;> simp [Stmt.onReview, key]
  · exact h.wrote.congr (reputations_exec fun _ _ _ => settleStmt_ne (by simp) (by simp) _ _ _ _)

/-! ### One step -/

theorem Progress.turn {w : Worker σ} {phase : WorkerPhase σ}
    (h : Progress cfg start rows v.db log w.phase) (sound : w.phase.Sound v.db)
    (distinct : (rows.map (·.id)).Nodup) (turn : w.Turn cfg v m phase st) :
    Progress cfg start rows (v.db.after st) (w.phase.closes m log) phase := by
  cases turn with
  | past _ _ _ isOver _ =>
    cases phase with
    | failing | requeueing | returned | gone => trivial
    | _ => exact isOver.elim
  | unread work e here | raised work stored e here | uncommitted work stored out e here =>
    rw [here] at h ⊢
    exact Between.settle h true true
  | resettled work row todo willRetry e here =>
    rw [here] at h ⊢
    obtain ⟨closed, e', early, rfl, h⟩ := h
    -- what is no longer to do has been settled
    have settled : work.rows.take (work.rows.length - (row :: todo).length) = early := by
      simp [h.rows_eq]
    simp only [WorkerPhase.closes, List.dropLast_concat, settled]
    exact h.resettle
  | smooth _ _ _ step =>
    cases step with
    | claimed skipped ids here =>
      rw [here] at h
      exact h.elim
    | read work here | output work stored out here =>
      rw [here] at h ⊢
      exact h
    | engineError work stored willRetry here =>
      rw [here] at h ⊢
      exact Between.settle h _ false
    | committed work stored out here =>
      rw [here] at h ⊢
      exact Between.commit h distinct out v.now
    | settled work row todo willRetry handler here =>
      rw [here] at h sound ⊢
      obtain ⟨closed, e, early, rfl, h⟩ := h
      -- the review is in the table, so the UPDATE finds it
      obtain ⟨r, found, -⟩ := (sound.1 _ List.mem_cons_self).held row (sound.2 List.mem_cons_self)
      have same : WorkerPhase.closes (.settling work (row :: todo) willRetry handler)
          (.reply .ok : Move σ) (closed ++ [work.closing e]) = closed ++ [work.closing e] := by
        cases handler <;> rfl
      rw [same]
      exact (h.settled distinct ⟨r, found⟩ v.now).settle
    | completed | marked | requeued => trivial

theorem Gate.Step.beside {written : List Uuid} {g : Gate} {phase : GatePhase}
    (step : g.Step cfg v m phase st) (touch : Touches db written st) : Beside db (db.after st) where
  reviews _ r found accepted := ⟨r, touch.accepted_of_gate step.puts found accepted, .inl rfl⟩
  reputations := by
    obtain rfl | ⟨row, rfl⟩ := step.puts <;> rfl

theorem Starter.Step.beside {b : Starter} {phase : StarterPhase} (step : b.Step cfg v m phase st)
    (db : Db σ) : Beside db (db.after st) := by
  cases effect : st with
  | none => exact .refl db
  | some x =>
    have plain : ∀ row, x ≠ .putReview row := by
      rintro row rfl
      exact step.plain row effect
    constructor
    · intro id r found _
      refine ⟨x.onReview r, Stmt.find?_exec_of_found plain found, ?_⟩
      rcases step.stmt_cases effect with ⟨rfl, -⟩ | ⟨ids, rfl, -⟩ | ⟨row, rfl, -⟩
      · exact .inl rfl
      · simp only [Stmt.onReview]
        split
        next requeued => exact .inr ⟨requeued.1, rfl⟩
        next => exact .inl rfl
      · exact .inl rfl
    · rcases step.stmt_cases effect with ⟨rfl, -⟩ | ⟨ids, rfl, -⟩ | ⟨row, rfl, -⟩ <;> rfl

/-- A step of another call. -/
theorem Alone.beside {i j : ℕ} {s s' : State σ} (alone : Alone i s (.act j m)) (other : j ≠ i)
    (sound : s.Sound) (step : s.step cfg (.act j m) = some s') :
    Beside s.db s'.db ∧ ∀ log, noteEndings i s (.act j m) log = log := by
  cases State.stepped step with
  | gate _ _ g phase st there gs =>
    exact ⟨gs.beside (sound.gate there gs), by simp [noteEndings, there]⟩
  | starter _ _ b phase st there bs => exact ⟨bs.beside s.db, by simp [noteEndings, there]⟩
  | worker _ _ w phase st there =>
    simp only [Alone, there] at alone
    exact absurd alone.1 other

/-- A step beside the runner, or one of its own. -/
theorem Alone.step {i : ℕ} {s s' : State σ} {a : Action σ} (alone : Alone i s a) (sound : s.Sound)
    (step : s.step cfg a = some s') {w : Worker σ} (here : s.calls[i]? = some (.worker w)) :
    (s'.calls[i]? = some (.worker w) ∧ Beside s.db s'.db ∧ ∀ log, noteEndings i s a log = log) ∨
      ∃ m phase st, a = .act i m ∧ m.Transient ∧ w.Turn cfg (s.view cfg i) m phase st ∧
        s'.calls[i]? = some (.worker (w.enter phase)) ∧ s'.db = s.db.after st ∧
        ∀ log, noteEndings i s a log = w.phase.closes m log := by
  have within : i < s.calls.length := (List.getElem?_eq_some_iff.mp here).1
  cases a with
  | tick d =>
    cases step
    exact .inl ⟨here, .refl s.db, fun _ => rfl⟩
  | request r =>
    cases step
    exact .inl ⟨(List.getElem?_append_left within).trans here, .refl s.db, fun _ => rfl⟩
  | act j m =>
    by_cases mine : j = i
    · subst mine
      have transient : m.Transient := by
        simp only [Alone, here] at alone
        exact alone.2
      obtain ⟨w', st, moved, rfl⟩ := State.acted_worker here step
      obtain ⟨phase, rfl, turn⟩ := Worker.turn_of_advance moved transient
      refine .inr ⟨m, phase, st, rfl, transient, turn, List.getElem?_set_self within, rfl, ?_⟩
      simp [noteEndings, here]
    · have beside := alone.beside mine sound step
      obtain ⟨c, c', st, -, -, rfl⟩ := State.acted step
      exact .inl ⟨(List.getElem?_set_ne mine).trans here, beside⟩

/-! ### The batch -/

section

variable (cfg) (i : ℕ) (start : Db σ) (rows : List ReviewRow)

/-- The runner has come so far with its batch. -/
structure InBatch (x : State σ × List (Closing σ)) : Prop where
  sound : x.1.Sound
  running : ∃ w, x.1.calls[i]? = some (.worker w) ∧ Progress cfg start rows x.1.db x.2 w.phase

end

theorem InBatch.finished {i : ℕ} {s : State σ} (h : InBatch cfg i start rows (s, log))
    {batchId : Uuid} {stats : Stats}
    (returned : s.calls[i]? = some (.worker ⟨batchId, .completing stats⟩)) :
    Between cfg start rows s.db log [] stats := by
  obtain ⟨w, here, progress⟩ := h.running
  cases returned.symm.trans here
  exact progress

theorem InBatch.step {i : ℕ} {x y : State σ × List (Closing σ)} {a : Action σ}
    (h : InBatch cfg i start rows x) (distinct : (rows.map (·.id)).Nodup)
    (step : Runs.recorded (State.step cfg) (noteEndings i) x a = some y) (alone : Alone i x.1 a) :
    InBatch cfg i start rows y := by
  obtain ⟨s, log⟩ := x
  obtain ⟨s', log'⟩ := y
  obtain ⟨step, rfl⟩ := Runs.recorded_eq_some.mp step
  obtain ⟨w, here, progress⟩ := h.running
  refine ⟨h.sound.step step, ?_⟩
  rcases alone.step h.sound step here with ⟨here', beside, same⟩ |
    ⟨m, phase, st, rfl, -, turn, here', db, noted⟩
  · refine ⟨w, here', ?_⟩
    rw [same]
    exact progress.beside beside
  · refine ⟨_, here', ?_⟩
    rw [noted, db]
    have sound : w.phase.Sound s.db := h.sound.calls _ _ here
    exact progress.turn sound distinct turn

/-- The rows returned by the claim are as it leaves them. -/
theorem find?_of_claimed {batchId : Uuid} {ids : List Uuid} {row : ReviewRow}
    (h : row ∈ claimedRows db batchId ids) :
    ((Stmt.claim batchId ids).exec db).reviews.find? row.id = some row ∧
      row.status = .processing := by
  obtain ⟨id, picked, h⟩ := List.mem_filterMap.mp h
  obtain ⟨r, found, rfl⟩ := Option.map_eq_some_iff.mp h
  have key := Table.key_of_find? found
  have same : ((Stmt.claim batchId ids : Stmt σ).onReview r).id = id := by
    rw [Stmt.onReview_id, key]
  constructor
  · rw [same]
    exact Stmt.find?_exec_of_found (by simp) found
  · simp [Stmt.onReview, key, picked]

/-- The claim. -/
theorem InBatch.claimed {s s' : State σ} {i : ℕ} {batchId : Uuid} {skipped ids : List Uuid}
    (sound : s.Sound) (ready : s.calls[i]? = some (.worker ⟨batchId, .ready⟩))
    (step : s.step cfg (.act i (.claim skipped ids .ok)) = some s') :
    ((claimedRows s.db batchId ids).map (·.id)).Nodup ∧
      s'.calls[i]? = some (.worker ⟨batchId, Worker.claimed (claimedRows s.db batchId ids)⟩) ∧
      InBatch cfg i s.db (claimedRows s.db batchId ids) (s', []) := by
  obtain ⟨w', st, moved, same⟩ := State.acted_worker ready step
  simp only [Worker.advance] at moved
  split at moved
  next picks =>
    cases moved
    have present : ∀ id ∈ ids, ∃ row, s.db.reviews.find? id = some row :=
      fun id picked => (picks.gated picked).imp fun _ found => found.1
    have ids_eq := claimedRows_ids batchId present
    have within : i < s.calls.length := (List.getElem?_eq_some_iff.mp ready).1
    have here : s'.calls[i]? =
        some (.worker ⟨batchId, Worker.claimed (claimedRows s.db batchId ids)⟩) := by
      rw [same]
      exact List.getElem?_set_self within
    have db : s'.db = (Stmt.claim batchId ids).exec s.db := by rw [same]; rfl
    refine ⟨by rw [ids_eq]; exact picks.1, here, sound.step step, _, here, ?_⟩
    rw [db]
    apply Between.next
    constructor
    · rfl
    · rfl
    · -- every claimed review waits as the claim returned it, and the claim moves no other
      refine ⟨by simp, fun g hg row hrow => ?_, fun id r found _ other => ?_⟩
      · obtain ⟨found, processing⟩ := find?_of_claimed (mem_of_group hg hrow).1
        exact ⟨row, found, by simp [processing], rfl⟩
      · rw [ids_eq] at other
        refine ⟨r, (Stmt.find?_exec_of_unmatched (by simp) ?_).trans found, .inl rfl⟩
        rintro row rfl
        simp only [Stmt.onReview, other, if_false]
    · exact ⟨by simp, fun _ _ => rfl⟩
  next => cases moved

/-- Before the first call, with any tables whose audit rows are as the gate writes them. -/
def State.Idle (s : State σ) : Prop := s.calls = [] ∧ Clean s.db

/-- The states of the runs that start on any tables. -/
abbrev State.ReachableIdle (cfg : Config σ) (ok : State σ → Action σ → Prop) : State σ → Prop :=
  Runs.Reachable Idle (step cfg) ok

theorem State.sound_of_idle {ok : State σ → Action σ → Prop} {s : State σ}
    (reachable : ReachableIdle cfg ok s) : s.Sound := by
  refine Runs.Reachable.invariant ?_ (fun s a s' _ h step _ => h.step step) reachable
  rintro s ⟨none, clean⟩
  exact ⟨clean, by simp [none], none ▸ Pool.Exclusive.nil⟩

/-- The runs of a batch from its claim on whose steps all meet a condition, with the record of
how its profiles end. -/
abbrev State.BatchRun (cfg : Config σ) (ok : State σ → Action σ → Prop) (i : ℕ) (s₁ : State σ) :
    State σ × List (Closing σ) → Prop :=
  Runs.Reachable (Runs.Noted (· = s₁) []) (Runs.recorded (step cfg) (noteEndings i))
    fun x a => ok x.1 a

theorem InBatch.run {ok : State σ → Action σ → Prop} {s₀ s₁ : State σ} {i : ℕ}
    {batchId : Uuid} {skipped ids : List Uuid} {x : State σ × List (Closing σ)}
    (alone : ∀ s a, ok s a → Alone i s a) (sound : s₀.Sound)
    (ready : s₀.calls[i]? = some (.worker ⟨batchId, .ready⟩))
    (claimed : s₀.step cfg (.act i (.claim skipped ids .ok)) = some s₁)
    (run : State.BatchRun cfg ok i s₁ x) :
    InBatch cfg i s₀.db (claimedRows s₀.db batchId ids) x := by
  obtain ⟨distinct, -, first⟩ := InBatch.claimed sound ready claimed
  refine Runs.Reachable.invariant ?_ ?_ run
  · rintro ⟨s, log⟩ ⟨same, none⟩
    obtain rfl : s = s₁ := same
    obtain rfl : log = [] := none
    exact first
  · intro x a y _ h step allowed
    exact h.step distinct step (alone x.1 a allowed)

/-! ### Sample batches -/

/-- Two reviews are accepted, and the batch 77 is about to claim. -/
def beforeClaim (first second : DostReview) : List (Action ℕ) :=
  .request (.gateAndStore first none) :: untilCheck 0 ++ checkAndCommit 0 ++
  .request (.gateAndStore second none) :: untilCheck 1 ++ checkAndCommit 1 ++
  .request .startBatch :: startsBatch 2 77 ++ [.request (.runBatchToCompletion 77)]

theorem reachable_beforeClaim {first second : DostReview} {s : State ℕ}
    (run : Runs.perform (State.step defaults) .start (beforeClaim first second) = some s) :
    State.ReachableIdle defaults Runs.Anything s := by
  have idle : State.Idle (State.start : State ℕ) := ⟨rfl, fun _ _ found _ => nomatch found⟩
  exact .perform (.start idle) run

end DostReview.Review
