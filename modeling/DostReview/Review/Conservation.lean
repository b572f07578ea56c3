import DostReview.Review.Accepted

/-!
# Conservation of folded reviews

A profile's total is meant to be the number of its `COMMITTED` reviews. A commit stores the
total that the engine made of the state read before, whatever has been stored or committed
since; a failure UPDATE takes a row out of `COMMITTED` as out of any status. Every other
step leaves both numbers alone.
-/
namespace DostReview.Review

variable {σ : Type} {cfg : Config σ} {db db' : Db σ} {st : Option (Stmt σ)}

/-- `profile_reputation.total_reviews`, 0 without a row. -/
def total (db : Db σ) (profileId : Uuid) : ℕ :=
  ((db.reputations.find? profileId).map (·.totalReviews)).getD 0

def committedOf (profileId : Uuid) (row : ReviewRow) : Bool :=
  row.targetProfileId = profileId ∧ row.status = .committed

def committedCount (db : Db σ) (profileId : Uuid) : ℕ := db.reviews.count (committedOf profileId)

def Balanced (db : Db σ) : Prop := ∀ profileId, total db profileId = committedCount db profileId

/-- The engine has added the reviews it was given to those of the state it was given, and
its state carries the number. -/
def Adds (cfg : Config σ) (work : Work) (stored : Option σ) (out : EngineOutput σ) : Prop :=
  out.totalReviews = (stored.map cfg.totalOf).getD 0 + work.rows.length ∧
    cfg.totalOf out.state = out.totalReviews

instance (work : Work) (stored : Option σ) (out : EngineOutput σ) :
    Decidable (Adds cfg work stored out) :=
  inferInstanceAs (Decidable (_ ∧ _))

def Call.EngineAdds (cfg : Config σ) (out : EngineOutput σ) : Call σ → Prop
  | .worker ⟨_, .processing work stored⟩ => Adds cfg work stored out
  | _ => True

instance (out : EngineOutput σ) : DecidablePred (Call.EngineAdds cfg out)
  | .worker ⟨_, .processing work stored⟩ => inferInstanceAs (Decidable (Adds cfg work stored out))
  | .worker ⟨_, .committing _ _ _⟩ => isTrue trivial
  | .worker ⟨_, .settling _ _ _ _⟩ => isTrue trivial
  | .worker ⟨_, .ready⟩ => isTrue trivial
  | .worker ⟨_, .loading _⟩ => isTrue trivial
  | .worker ⟨_, .completing _⟩ => isTrue trivial
  | .worker ⟨_, .failing _⟩ => isTrue trivial
  | .worker ⟨_, .requeueing⟩ => isTrue trivial
  | .worker ⟨_, .returned _⟩ => isTrue trivial
  | .worker ⟨_, .gone⟩ => isTrue trivial
  | .gate _ => isTrue trivial
  | .starter _ => isTrue trivial

/-- What is assumed of the engine: a successful call adds. -/
def EngineAdds (cfg : Config σ) (s : State σ) : Action σ → Prop
  | .act i (.engine (.output out)) => ∀ c ∈ s.calls[i]?, Call.EngineAdds cfg out c
  | _ => True

instance (s : State σ) : DecidablePred (EngineAdds cfg s)
  | .act i (.engine (.output out)) =>
    inferInstanceAs (Decidable (∀ c ∈ s.calls[i]?, Call.EngineAdds cfg out c))
  | .act _ (.engine (.error _)) => isTrue trivial
  | .act _ (.engine (.raised _)) => isTrue trivial
  | .act _ (.reply _) => isTrue trivial
  | .act _ (.claim _ _ _) => isTrue trivial
  | .act _ (.onboard _) => isTrue trivial
  | .act _ (.uuid _ _) => isTrue trivial
  | .act _ .clock => isTrue trivial
  | .act _ .crash => isTrue trivial
  | .tick _ => isTrue trivial
  | .request _ => isTrue trivial

/-- The rows of a list that are `COMMITTED` on file. -/
def committedAmong (db : Db σ) (profileId : Uuid) (rows : List ReviewRow) : ℕ :=
  (rows.map (·.id)).countP fun id => (db.reviews.find? id).any (committedOf profileId)

/-- A commit finds the total that was read, increased by those of its own rows that are
`COMMITTED` already; a failure UPDATE finds its row not `COMMITTED`. -/
def Worker.FoldsOnce (cfg : Config σ) (db : Db σ) (w : Worker σ) : Prop :=
  match w.phase with
  | .committing work stored _ =>
    total db work.profileId =
      (stored.map cfg.totalOf).getD 0 + committedAmong db work.profileId work.rows
  | .settling _ (row :: _) _ _ => ∀ r ∈ db.reviews.find? row.id, r.status ≠ .committed
  | _ => True

def FoldsOnce (cfg : Config σ) (s : State σ) : Action σ → Prop :=
  WhereLands (fun w => w.FoldsOnce cfg s.db) s

instance (db : Db σ) : DecidablePred (Worker.FoldsOnce cfg db)
  | ⟨_, .committing work stored _⟩ =>
    inferInstanceAs (Decidable (total db work.profileId =
      (stored.map cfg.totalOf).getD 0 + committedAmong db work.profileId work.rows))
  | ⟨_, .settling _ (row :: _) _ _⟩ =>
    inferInstanceAs (Decidable (∀ r ∈ db.reviews.find? row.id, r.status ≠ .committed))
  | ⟨_, .settling _ [] _ _⟩ => isTrue trivial
  | ⟨_, .ready⟩ => isTrue trivial
  | ⟨_, .loading _⟩ => isTrue trivial
  | ⟨_, .processing _ _⟩ => isTrue trivial
  | ⟨_, .completing _⟩ => isTrue trivial
  | ⟨_, .failing _⟩ => isTrue trivial
  | ⟨_, .requeueing⟩ => isTrue trivial
  | ⟨_, .returned _⟩ => isTrue trivial
  | ⟨_, .gone⟩ => isTrue trivial

instance (s : State σ) (a : Action σ) : Decidable (FoldsOnce cfg s a) :=
  inferInstanceAs (Decidable (WhereLands _ s a))

/-! ### Statements that change neither number -/

theorem reputations_exec {x : Stmt σ} (other : ∀ row ids now, x ≠ .commitProfile row ids now) :
    (x.exec db).reputations = db.reputations := by
  cases x
  case commitProfile row ids now => exact absurd rfl (other row ids now)
  all_goals rfl

theorem total_exec {x : Stmt σ} (other : ∀ row ids now, x ≠ .commitProfile row ids now)
    (profileId : Uuid) : total (x.exec db) profileId = total db profileId := by
  rw [total, reputations_exec other, total]

/-- An UPDATE that moves no row into or out of `COMMITTED` keeps the count. -/
theorem committedCount_exec {x : Stmt σ} (plain : ∀ row, x ≠ .putReview row)
    (same : ∀ id row, db.reviews.find? id = some row →
      ((x.onReview row).status = .committed ↔ row.status = .committed)) (profileId : Uuid) :
    committedCount (x.exec db) profileId = committedCount db profileId := by
  refine Table.count_congr fun id => ?_
  rw [Stmt.find?_exec x plain]
  cases found : db.reviews.find? id with
  | none => simp
  | some row =>
    have target : (x.onReview row).targetProfileId = row.targetProfileId := by
      rw [x.onReview_same row]
    simp [committedOf, target, same id row found]

theorem committedCount_put {new : ReviewRow}
    (free : Replaceable db new.id) (uncommitted : new.status ≠ .committed) (profileId : Uuid) :
    committedCount ((Stmt.putReview new).exec db) profileId = committedCount db profileId := by
  refine Table.count_congr fun id => ?_
  rw [Stmt.find?_exec_putReview]
  by_cases mine : id = new.id
  · subst mine
    simp only [if_true]
    refine iff_of_false ?_ ?_
    · rintro ⟨row, put, committed⟩
      cases put
      simp [committedOf, uncommitted] at committed
    · rintro ⟨row, found, committed⟩
      simp [committedOf, free row found] at committed
  · simp [mine]

theorem Balanced.of_eq (totals : ∀ p, total db' p = total db p)
    (counts : ∀ p, committedCount db' p = committedCount db p) (h : Balanced db) : Balanced db' :=
  fun p => by rw [totals, counts, h]

/-! ### The commit -/

/-- After a commit: what was `COMMITTED` among the rows counts once. -/
theorem committedCount_commit {work : Work} (out : EngineOutput σ) (now : Time)
    (sound : SoundGroup db (work.profileId, work.rows)) :
    committedCount ((work.commit out now).exec db) work.profileId +
        committedAmong db work.profileId work.rows =
      committedCount db work.profileId + work.rows.length := by
  -- the commit brings every row of the group under the condition
  have marked := Table.count_marked db.reviews ((work.commit out now).exec db).reviews
    (committedOf work.profileId) sound.distinct fun id => ?_
  · rwa [List.length_map] at marked
  rw [Stmt.find?_exec _ (by simp [Work.commit])]
  cases found : db.reviews.find? id with
  | none =>
    simp only [Option.map_none, reduceCtorEq, false_and, exists_false, false_or, false_iff]
    intro held
    obtain ⟨row, mem, rfl⟩ := List.mem_map.mp held
    obtain ⟨r, present, -⟩ := sound.held row mem
    cases found.symm.trans present
  | some row =>
    have key : row.id = id := Table.key_of_find? found
    by_cases held : id ∈ work.rows.map (·.id)
    · obtain ⟨mine, mem, same⟩ := List.mem_map.mp held
      obtain ⟨r, present, -, target⟩ := sound.held mine mem
      rw [same, found] at present
      cases present
      simp [Work.commit, Stmt.onReview, committedOf, key, held, target]
    · simp [Work.commit, Stmt.onReview, committedOf, key, held]

theorem committedCount_commit_of_ne {work : Work} {out : EngineOutput σ} {now : Time}
    (sound : SoundGroup db (work.profileId, work.rows)) {profileId : Uuid}
    (other : profileId ≠ work.profileId) :
    committedCount ((work.commit out now).exec db) profileId = committedCount db profileId := by
  refine Table.count_congr fun id => ?_
  rw [Stmt.find?_exec _ (by simp [Work.commit])]
  cases found : db.reviews.find? id with
  | none => simp
  | some row =>
    have key : row.id = id := Table.key_of_find? found
    by_cases held : id ∈ work.rows.map (·.id)
    · obtain ⟨mine, mem, same⟩ := List.mem_map.mp held
      obtain ⟨r, present, -, target⟩ := sound.held mine mem
      rw [same, found] at present
      cases present
      simp [Work.commit, Stmt.onReview, committedOf, key, held, target, Ne.symm other]
    · simp [Work.commit, Stmt.onReview, committedOf, key, held]

theorem total_commit (work : Work) (out : EngineOutput σ) (now : Time) (profileId : Uuid) :
    total ((work.commit out now).exec db) profileId =
      if profileId = work.profileId then out.totalReviews else total db profileId := by
  simp only [total, Work.commit, Stmt.exec, Table.find?_put, reputationRow]
  split <;> rfl

/-- A commit keeps the balance exactly when it finds the total that was read, increased by
the rows committed already. -/
theorem balanced_commit {work : Work} {stored : Option σ} {out : EngineOutput σ} {now : Time}
    (sound : SoundGroup db (work.profileId, work.rows)) (adds : Adds cfg work stored out)
    (h : Balanced db) :
    Balanced ((work.commit out now).exec db) ↔
      total db work.profileId =
        (stored.map cfg.totalOf).getD 0 + committedAmong db work.profileId work.rows := by
  -- total after = total read + rows, count after = count before + rows - those committed already
  have count := committedCount_commit out now sound
  have before := h work.profileId
  have made := adds.1
  refine ⟨fun after => ?_, fun read profileId => ?_⟩
  · have := after work.profileId
    rw [total_commit, if_pos rfl] at this
    omega
  · rw [total_commit]
    split
    next same =>
      subst same
      omega
    next other => rw [committedCount_commit_of_ne sound other, h]

/-! ### The failure UPDATE -/

/-- A failure UPDATE keeps the balance exactly when its row is not `COMMITTED`. -/
theorem balanced_settle {willRetry : Bool} {held : ReviewRow} {now : Time} (h : Balanced db) :
    Balanced ((settleStmt cfg willRetry held now).exec db) ↔
      ∀ r ∈ db.reviews.find? held.id, r.status ≠ .committed := by
  have totals : ∀ p, total ((settleStmt cfg willRetry held now).exec db) p = total db p :=
    total_exec fun _ _ _ => settleStmt_ne (by simp) (by simp) _ _ _ _
  have plain : ∀ row, settleStmt cfg willRetry held now ≠ .putReview row :=
    fun _ => settleStmt_ne (by simp) (by simp) _ _ _ _
  have uncommitted : ∀ row : ReviewRow, row.id = held.id →
      ((settleStmt cfg willRetry held now).onReview row).status ≠ .committed := by
    intro row mine
    rcases onReview_settle_self cfg willRetry now mine with eq | eq <;>
      simp [eq]
  constructor
  · intro after r found committed
    -- the count of the row's profile drops by one, and its total stays
    have removed := Table.count_removed db.reviews
      ((settleStmt cfg willRetry held now).exec db).reviews (committedOf r.targetProfileId) found
      (by simp [committedOf, committed]) fun id => ?_
    · have := after r.targetProfileId
      have := h r.targetProfileId
      simp only [totals, committedCount] at *
      omega
    rw [Stmt.find?_exec _ plain]
    cases present : db.reviews.find? id with
    | none => simp
    | some row =>
      have key : row.id = id := Table.key_of_find? present
      by_cases mine : id = held.id
      · simp [mine, committedOf, uncommitted row (key.trans mine)]
      · simp [mine, onReview_settle_of_ne (key ▸ mine : row.id ≠ held.id)]
  · intro spared
    refine h.of_eq totals (committedCount_exec plain fun id row found => ?_)
    have key : row.id = id := Table.key_of_find? found
    by_cases mine : row.id = held.id
    · have present : db.reviews.find? held.id = some row := mine ▸ key ▸ found
      exact iff_of_false (uncommitted row mine) (spared row present)
    · rw [onReview_settle_of_ne mine]

/-! ### One step -/

theorem Worker.balanced_iff_due {w : Worker σ} {now : Time} {x : Stmt σ}
    (due : w.due cfg now = some x) (sound : w.phase.Sound db)
    (adds : ∀ work stored out, w.phase = .committing work stored out → Adds cfg work stored out)
    (h : Balanced db) : Balanced (x.exec db) ↔ w.FoldsOnce cfg db := by
  -- an UPDATE of `batch_run` moves neither side
  have finish : ∀ id status report now, Balanced ((Stmt.finish id status report now).exec db) :=
    fun _ _ _ _ => h.of_eq (total_exec (by simp)) (committedCount_exec (by simp) fun _ _ _ => Iff.rfl)
  obtain ⟨batchId, phase⟩ := w
  cases phase with
  | committing work stored out =>
    cases due
    exact balanced_commit (sound _ List.mem_cons_self) (adds work stored out rfl) h
  | settling work todo willRetry handler =>
    cases todo with
    | nil => cases due
    | cons row todo =>
      cases due
      exact balanced_settle h
  | completing | failing =>
    cases due
    exact iff_of_true (finish _ _ _ _) trivial
  | _ => cases due

theorem Worker.foldsOnce_of_idle {w : Worker σ} (now : Time) (idle : w.due cfg now = none) :
    w.FoldsOnce cfg db := by
  obtain ⟨batchId, phase⟩ := w
  cases phase with
  | committing => cases idle
  | settling work todo willRetry handler =>
    cases todo with
    | nil => trivial
    | cons row todo => cases idle
  | _ => trivial

/-- The balance, what it rests on in the tables, and what the engine has answered. -/
structure State.Kept (cfg : Config σ) (s : State σ) : Prop where
  balanced : Balanced s.db
  carried : ∀ profileId row, s.db.reputations.find? profileId = some row →
    cfg.totalOf row.state = row.totalReviews
  adds : ∀ (i : ℕ) (w : Worker σ) work stored out, s.calls[i]? = some (.worker w) →
    w.phase = .committing work stored out → Adds cfg work stored out

theorem State.Kept.balanced_iff {s s' : State σ} {a : Action σ} (h : s.Kept cfg) (sound : s.Sound)
    (step : s.step cfg a = some s') : Balanced s'.db ↔ FoldsOnce cfg s a := by
  cases State.stepped step with
  | tick | request => exact iff_of_true h.balanced trivial
  | gate i m g phase st here gs =>
    refine iff_of_true ?_ (whereLands_gate here)
    obtain rfl | ⟨row, rfl⟩ := gs.puts
    · exact h.balanced
    -- the gate's upserts: an audit row or a fresh acceptance, neither is `COMMITTED`
    · have free : Replaceable s.db row.id := by
        cases sound.gate here gs with
        | wrote _ free => exact free
        | updated _ plain => exact absurd rfl (plain row)
      refine h.balanced.of_eq (total_exec (by simp)) (committedCount_put free ?_)
      rcases gs.put_cases sound.clean (sound.calls _ _ here) rfl with rejected | ⟨start, -, rfl⟩
      · simp [rejected]
      · simp [gatedRow]
  | worker i m w phase st here ws =>
    rw [FoldsOnce, whereLands_worker here]
    cases effect : st with
    | none =>
      refine iff_of_true h.balanced fun lands => ?_
      cases due : w.due cfg s.now with
      | none => exact Worker.foldsOnce_of_idle s.now due
      | some x => cases effect.symm.trans (ws.due_lands lands due)
    | some x =>
      rcases ws.stmt_cases effect with ⟨skipped, ids, ready, picks, rfl⟩ | ⟨lands, due⟩ | ⟨here', rfl⟩
      · refine iff_of_true (h.balanced.of_eq (total_exec (by simp)) (committedCount_exec (by simp)
          fun id row found => ?_)) fun _ => Worker.foldsOnce_of_idle s.now (by simp [Worker.due, ready])
        -- a row the claim takes was `GATED` and becomes `PROCESSING`
        by_cases taken : row.id ∈ ids
        · have gated : row.status = .gated := picks.status found taken
          simp [Stmt.onReview, taken, gated]
        · simp [Stmt.onReview, taken]
      · refine (Worker.balanced_iff_due due (sound.calls _ _ here)
          (fun work stored out => h.adds i w work stored out here) h.balanced).trans ?_
        exact ⟨fun folds _ => folds, fun folds => folds lands⟩
      · refine iff_of_true (h.balanced.of_eq (total_exec (by simp)) (committedCount_exec (by simp)
          fun id row found => ?_)) fun _ => Worker.foldsOnce_of_idle s.now (by simp [Worker.due, here'])
        simp only [Stmt.onReview]
        split
        next processing => simp [processing.1]
        next => rfl
  | starter i m b phase st here bs =>
    refine iff_of_true ?_ (whereLands_starter here)
    cases effect : st with
    | none => exact h.balanced
    | some x =>
      rcases bs.stmt_cases effect with ⟨rfl, -⟩ | ⟨ids, rfl, -⟩ | ⟨row, rfl, -⟩
      · exact h.balanced.of_eq (total_exec (by simp))
          (committedCount_exec (by simp) fun _ _ _ => Iff.rfl)
      · refine h.balanced.of_eq (total_exec (by simp))
          (committedCount_exec (by simp) fun id row found => ?_)
        simp only [Stmt.onReview]
        split
        next processing => simp [processing.1]
        next => rfl
      · exact h.balanced.of_eq (total_exec (by simp))
          (committedCount_exec (by simp) fun _ _ _ => Iff.rfl)

/-- A runner comes to commit by the engine's output. -/
theorem Worker.Step.committing {v : View σ} {m : Move σ} {w : Worker σ} {phase : WorkerPhase σ}
    (step : w.Step cfg v m phase st) {work : Work} {stored : Option σ} {out : EngineOutput σ}
    (h : phase = .committing work stored out) :
    m = .engine (.output out) ∧ w.phase = .processing work stored := by
  have onward : ¬ phase.Onward := fun onward => by
    rw [h] at onward
    exact onward
  -- only the engine's output leads to a commit; every other step goes on in the loop or ends
  cases step with
  | output work' stored' out' here =>
    cases h
    exact ⟨rfl, here⟩
  | claimed | committed => exact absurd (onward_nextProfile _ _) onward
  | unread | raised | uncommitted | engineError | settled =>
    exact absurd (onward_settle _ _ _ _) onward
  | unsettled work' row todo willRetry handler =>
    cases handler with
    | true => cases h
    | false => exact absurd (onward_settle _ _ _ _) onward
  | _ => cases h

theorem Worker.Step.reputations {v : View σ} {m : Move σ} {w : Worker σ} {phase : WorkerPhase σ}
    (step : w.Step cfg v m phase st) :
    (v.db.after st).reputations = v.db.reputations ∨
      ∃ work stored out, w.phase = .committing work stored out ∧
        (v.db.after st).reputations = v.db.reputations.put (reputationRow work.profileId out) := by
  cases effect : st with
  | none => exact .inl rfl
  | some x =>
    rcases step.stmt_cases effect with ⟨_, _, _, _, rfl⟩ | ⟨-, due⟩ | ⟨-, rfl⟩
    · exact .inl rfl
    · rcases Worker.due_cases due with ⟨work, stored, out, here, rfl⟩ | ⟨_, row, _, _, _, -, rfl⟩ |
        ⟨_, _, rfl⟩
      · exact .inr ⟨work, stored, out, here, rfl⟩
      · exact .inl (reputations_exec fun _ _ _ => settleStmt_ne (by simp) (by simp) _ _ _ _)
      · exact .inl rfl
    · exact .inl rfl

theorem State.Kept.step {s s' : State σ} {a : Action σ} (h : s.Kept cfg) (sound : s.Sound)
    (step : s.step cfg a = some s') (adds : EngineAdds cfg s a) (folds : FoldsOnce cfg s a) :
    s'.Kept cfg := by
  refine ⟨(h.balanced_iff sound step).mpr folds, fun profileId row found => ?_,
    fun j w work stored out there committing => ?_⟩
  · cases State.stepped step with
    | tick | request => exact h.carried profileId row found
    | gate i m g phase st here gs =>
      refine h.carried profileId row ?_
      obtain rfl | ⟨new, rfl⟩ := gs.puts <;> exact found
    | starter i m b phase st here bs =>
      refine h.carried profileId row ?_
      cases effect : st with
      | none => rwa [effect] at found
      | some x =>
        rw [effect] at found
        rcases bs.stmt_cases effect with ⟨rfl, -⟩ | ⟨ids, rfl, -⟩ | ⟨row, rfl, -⟩ <;> exact found
    | worker i m w phase st here ws =>
      -- only a commit writes a reputation, and its state carries its total
      rcases ws.reputations with same | ⟨work, stored, out, committing, put⟩
      · exact h.carried profileId row (same ▸ found)
      · have found' : (s.db.reputations.put (reputationRow work.profileId out)).find? profileId =
          some row := put ▸ found
        rw [Table.find?_put] at found'
        split at found'
        · cases found'
          exact (h.adds i w work stored out here committing).2
        · exact h.carried profileId row found'
  · rcases (State.stepped step).worker_cases there with
      old | ready | ⟨m, w₀, phase, st, rfl, here, ws, rfl⟩
    · exact h.adds j w work stored out old committing
    · cases ready.symm.trans committing
    · obtain ⟨rfl, processing⟩ := ws.committing committing
      obtain ⟨batchId, phase₀⟩ := w₀
      subst processing
      exact adds _ here

/-- In a run whose commits find the total they were reckoned from and whose failure UPDATEs
find no `COMMITTED` row, every profile's total is the number of its `COMMITTED` reviews; and
a step upsets it exactly when its UPDATE does not. -/
theorem folds_conserved {s : State σ} (reachable : State.Reachable cfg
      (fun s a => EngineAdds cfg s a ∧ FoldsOnce cfg s a) s) :
    Balanced s.db ∧ ∀ a s', s.step cfg a = some s' → (Balanced s'.db ↔ FoldsOnce cfg s a) := by
  have kept : s.Kept cfg := by
    refine Runs.Reachable.invariant (fun s init => ?_) (fun s a s' hr h step ok =>
      h.step (State.sound hr) step ok.1 ok.2) reachable
    obtain ⟨empty, none⟩ := init
    refine ⟨fun p => ?_, ?_, ?_⟩ <;>
      simp [empty, none, Db.empty, total, committedCount, Table.empty, Table.find?, Table.count]
  exact ⟨kept.balanced, fun a s' step => kept.balanced_iff (State.sound reachable) step⟩

/-- One review through one batch. -/
theorem folds_conserved_batch : ∃ s : State ℕ,
    Runs.performGuarded (State.step defaults)
      (fun s a => EngineAdds defaults s a ∧ FoldsOnce defaults s a) .start
      (sampleBatch ++ [.act 2 (.engine (.output (sampleOutput 0 1))), .act 2 (.reply .ok),
        .act 2 (.reply .ok)]) = some s ∧
    total s.db 1 = 1 ∧ Balanced s.db := by
  have run : Runs.performGuarded (State.step defaults)
    (fun s a => EngineAdds defaults s a ∧ FoldsOnce defaults s a) .start
    (sampleBatch ++ [.act 2 (.engine (.output (sampleOutput 0 1))), .act 2 (.reply .ok),
      .act 2 (.reply .ok)]) = some _ := rfl
  exact ⟨_, run, rfl, (folds_conserved (.performGuarded (.start ⟨rfl, rfl⟩) run)).1⟩

/-- The batch 77 is swept while its engine works; the batch 78 folds its review and another;
then the first folds the state it read. -/
def sweptAndFolded : List (Action ℕ) :=
  sampleBatch ++ [.tick (61 * 60 * 1000000), .request .sweepStaleBatches, .act 3 (.reply .ok),
    .act 3 (.reply .ok), .request (.gateAndStore (sampleReview 8 2) none)] ++ untilCheck 4 ++
  checkAndCommit 4 ++ .request .startBatch :: startsBatch 5 78 ++
  [.request (.runBatchToCompletion 78), .act 6 (.claim [] [7, 8] .ok), .act 6 (.reply .ok),
    .act 6 (.engine (.output (sampleOutput 0 2))), .act 6 (.reply .ok),
    .act 2 (.engine (.output (sampleOutput 0 1))), .act 2 (.reply .ok)]

/-- With an engine that adds: a fold is lost after a sweep, and a review whose commit is not
acknowledged is given back although it is folded. -/
theorem folds_not_conserved :
    (∃ s : State ℕ, State.Reachable defaults (EngineAdds defaults) s ∧
      total s.db 1 = 1 ∧ committedCount s.db 1 = 2) ∧
    ∃ s : State ℕ, State.Reachable defaults (EngineAdds defaults) s ∧
      total s.db 1 = 1 ∧ committedCount s.db 1 = 0 := by
  constructor
  · have run : Runs.performGuarded (State.step defaults) (EngineAdds defaults) .start
      sweptAndFolded = some _ := rfl
    exact ⟨_, .performGuarded (.start ⟨rfl, rfl⟩) run, rfl, rfl⟩
  · have run : Runs.performGuarded (State.step defaults) (EngineAdds defaults) .start
      (sampleBatch ++ [.act 2 (.engine (.output (sampleOutput 0 1))),
        .act 2 (.reply (.lost "connection was closed")), .act 2 (.reply .ok)]) = some _ := rfl
    exact ⟨_, .performGuarded (.start ⟨rfl, rfl⟩) run, rfl, rfl⟩

end DostReview.Review
