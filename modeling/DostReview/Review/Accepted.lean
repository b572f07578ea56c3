import DostReview.Review.Held

/-!
# Acceptance

The gate lets a review in at most once, and an accepted review is out of the gate's reach:
its upserts only ever replace an absent row or the audit row of a rejection. What one
statement may do to the reviews is said once, in `Touches`; that the calls stay sound under
any step follows from it.
-/
namespace DostReview.Review

variable {σ : Type} {cfg : Config σ} {db db' : Db σ} {v : View σ} {m : Move σ}
  {st : Option (Stmt σ)}

/-- The columns that a rejection's row has by default. -/
structure ReviewRow.Fresh (row : ReviewRow) : Prop where
  weight : row.raterWeight = 1
  batch : row.batchId = none
  processed : row.processedAt = none
  retries : row.retryCount = 0

/-- Audit rows are as the gate wrote them. -/
def Clean (db : Db σ) : Prop :=
  ∀ id row, db.reviews.find? id = some row → row.status = .gateRejected → row.Fresh

/-- No accepted review has the id. -/
def Replaceable (db : Db σ) (id : Uuid) : Prop :=
  ∀ row, db.reviews.find? id = some row → row.status = .gateRejected

/-! ### The upserts -/

theorem persistRejected_spec {review : DostReview} {eventId : Option Uuid} {code : GateCode}
    {now : Time} {row : ReviewRow} (clean : Clean db)
    (h : persistRejected db review eventId code now = some row) :
    row.id = review.reviewId ∧ Replaceable db review.reviewId ∧ row.status = .gateRejected ∧
      row.Fresh := by
  unfold persistRejected at h
  split at h
  next absent =>
    cases h
    exact ⟨rfl, by simp [Replaceable, absent], rfl, ⟨rfl, rfl, rfl, rfl⟩⟩
  next old found =>
    split at h
    -- the other columns keep what the row of the earlier rejection had
    next rejected =>
      cases h
      have fresh := clean _ _ found rejected
      have same : old.id = review.reviewId := Table.key_of_find? found
      exact ⟨same, by simp [Replaceable, found, rejected], rejected,
        ⟨fresh.weight, fresh.batch, fresh.processed, fresh.retries⟩⟩
    next => cases h

/-- The row of an accepting upsert is that of a first insert, also where it upgrades the row
of a rejection. -/
theorem insertGated_spec {review : DostReview} {eventId : Option Uuid} {now : Time}
    {row : ReviewRow} (clean : Clean db) (h : insertGated db review eventId now = some row) :
    row = gatedRow review eventId now ∧ Replaceable db review.reviewId := by
  unfold insertGated at h
  split at h
  next absent =>
    cases h
    exact ⟨rfl, by simp [Replaceable, absent]⟩
  next old found =>
    split at h
    next rejected =>
      cases h
      have fresh := clean _ _ found rejected
      refine ⟨?_, by simp [Replaceable, found, rejected]⟩
      simp only [gatedRow, fresh.weight, fresh.batch, fresh.processed, fresh.retries,
        Table.key_of_find? found]
    next => cases h

/-! ### What a statement may do to the reviews -/

/-- A statement of a call that respects what the others have written: it does nothing, it
writes a row over no accepted one, or it updates accepted rows only. -/
inductive Touches (db : Db σ) (written : List Uuid) : Option (Stmt σ) → Prop
  | nothing : Touches db written none
  | wrote (row : ReviewRow) : Replaceable db row.id → row.id ∉ written →
      (row.status = .gateRejected → row.Fresh) → Touches db written (some (.putReview row))
  | updated (st : Stmt σ) : (∀ row, st ≠ .putReview row) →
      (∀ id row, db.reviews.find? id = some row → row.status = .gateRejected →
        st.onReview row = row) → Touches db written (some st)

namespace Touches

variable {written : List Uuid}

theorem keeps (h : Touches db written st) : Keeps db (db.after st) := by
  intro id row found accepted
  cases h with
  | nothing => exact ⟨row, found, accepted, rfl⟩
  | wrote new free _ _ =>
    have other : id ≠ new.id := fun same => accepted (free row (same ▸ found))
    exact ⟨row, by simp [Db.after, other, found], accepted, rfl⟩
  | updated st plain _ =>
    refine ⟨st.onReview row, ?_, st.onReview_accepted accepted, st.onReview_same row⟩
    simp [Db.after, Stmt.find?_exec st plain, found]

theorem replaceable (h : Touches db written st) {id : Uuid}
    (other : ∀ row, st = some (.putReview row) → row.id ≠ id) (free : Replaceable db id) :
    Replaceable (db.after st) id := by
  intro row' found'
  cases h with
  | nothing => exact free row' found'
  | wrote new _ _ _ =>
    have ne : id ≠ new.id := (other new rfl).symm
    simp only [Db.after, Stmt.find?_exec_putReview, ne, if_false] at found'
    exact free row' found'
  | updated st plain spares =>
    obtain ⟨row, found, -, rfl⟩ := Stmt.row_before plain found'
    rw [spares id row found (free row found)]
    exact free row found

theorem clean (h : Touches db written st) (before : Clean db) : Clean (db.after st) := by
  intro id row' found' rejected
  cases h with
  | nothing => exact before id row' found' rejected
  | wrote new _ _ fresh =>
    simp only [Db.after, Stmt.find?_exec_putReview] at found'
    split at found'
    · cases found'
      exact fresh rejected
    · exact before id row' found' rejected
  | updated st plain spares =>
    obtain ⟨row, found, -, rfl⟩ := Stmt.row_before plain found'
    by_cases old : row.status = .gateRejected
    · rw [spares id row found old]
      exact before id row found old
    · exact absurd rejected (st.onReview_accepted old)

/-- A statement adds to a count of accepted reviews, by what they were submitted with, only the row
that it puts. -/
theorem count_le (h : Touches db written st) {p : ReviewRow → Bool}
    (rejected : ∀ row, row.status = .gateRejected → p row = false)
    (same : ∀ row row', row.SameSubmission row' → row.Accepted → row'.Accepted → p row' = p row)
    (outside : ∀ row, st = some (.putReview row) → p row = false) :
    (db.after st).reviews.count p ≤ db.reviews.count p := by
  cases h with
  | nothing => exact le_rfl
  | wrote row => exact db.reviews.count_put_le_of_not (outside row rfl)
  | updated st plain spares =>
    refine Table.count_le fun id row' found' holds => ?_
    obtain ⟨row, found, -, rfl⟩ := Stmt.row_before plain found'
    have accepted : row.Accepted := fun rejection => by
      rw [spares id row found rejection, rejected row rejection] at holds
      cases holds
    have kept := same row _ (st.onReview_same row) accepted (st.onReview_accepted accepted)
    exact ⟨row, found, kept ▸ holds⟩

end Touches

/-! ### Soundness of the calls -/

/-- What a call of the gate has written can still be committed, and what it has accepted is
on file. -/
def Gate.Sound (db : Db σ) (g : Gate) : Prop :=
  match g.phase with
  | .committing start .passed row =>
    Replaceable db g.review.reviewId ∧ row = some (gatedRow g.review g.eventId start)
  | .committing _ (.rejected _) row =>
    ∀ new, row = some new → new.id = g.review.reviewId ∧ Replaceable db g.review.reviewId ∧
      new.status = .gateRejected ∧ new.Fresh
  | .returned .passed => ∃ row, db.reviews.find? g.review.reviewId = some row ∧ row.Accepted
  | _ => True

def Call.Sound (db : Db σ) : Call σ → Prop
  | .gate g => g.Sound db
  | .worker w => w.phase.Sound db
  | .starter _ => True

theorem Gate.Sound.written {g : Gate} (h : g.Sound db) {row : ReviewRow}
    (written : g.written = some row) : row.id = g.review.reviewId ∧
      Replaceable db g.review.reviewId ∧ (row.status = .gateRejected → row.Fresh) := by
  unfold Gate.written at written
  split at written
  next start result _ here =>
    subst written
    simp only [Gate.Sound, here] at h
    cases result with
    | passed =>
      obtain ⟨free, rfl⟩ := h.imp_right Option.some.inj
      exact ⟨rfl, free, by simp [gatedRow]⟩
    | rejected code =>
      obtain ⟨same, free, rejected, fresh⟩ := h row rfl
      exact ⟨same, free, fun _ => fresh⟩
  next => cases written

/-! ### One step -/

theorem Gate.Step.touches {g : Gate} {phase : GatePhase} (step : g.Step cfg v m phase st)
    (clean : Clean v.db) (h : g.Sound v.db)
    (mine : ∀ row, g.written = some row → row.id ∉ v.written) : Touches v.db v.written st := by
  cases effect : st with
  | none => exact .nothing
  | some x =>
    obtain ⟨row, rfl, ⟨free, rejected⟩ | ⟨start, result, here⟩⟩ := step.stmt_cases effect
    · obtain ⟨same, absent, -, fresh⟩ := persistRejected_spec clean rejected
      exact .wrote row (same ▸ absent) (same ▸ free) fun _ => fresh
    -- the transaction's row at its commit
    · have written : g.written = some row := by simp [Gate.written, here]
      obtain ⟨same, free, fresh⟩ := h.written written
      exact .wrote row (same ▸ free) (mine row written) fresh

theorem Worker.Step.touches {w : Worker σ} {phase : WorkerPhase σ} (step : w.Step cfg v m phase st)
    (h : w.phase.Sound v.db) : Touches v.db v.written st := by
  cases effect : st with
  | none => exact .nothing
  | some x =>
    rcases step.stmt_cases effect with ⟨skipped, ids, -, picks, rfl⟩ | ⟨-, due⟩ | ⟨-, rfl⟩
    · refine .updated _ (by simp) fun id row found rejected => ?_
      -- a picked row is `GATED`, so no audit row is claimed
      by_cases picked : row.id ∈ ids
      · have gated := picks.status found picked
        simp [rejected] at gated
      · simp [Stmt.onReview, picked]
    · rcases Worker.due_cases due with ⟨work, _, out, here, rfl⟩ |
        ⟨work, held, _, willRetry, _, here, rfl⟩ | ⟨_, _, rfl⟩
      · refine .updated _ (by simp [Work.commit]) fun id row found rejected => ?_
        rw [here] at h
        have none : row.id ∉ work.rows.map (·.id) := by
          intro there
          obtain ⟨held, mem, same⟩ := List.mem_map.mp there
          exact (h _ List.mem_cons_self).foreign found rejected mem same.symm
        simp only [Work.commit, Stmt.onReview, none, if_false]
      · refine .updated _ (fun _ => settleStmt_ne (by simp) (by simp) _ _ _ _)
          fun id row found rejected => ?_
        rw [here] at h
        rw [onReview_settle_of_ne]
        exact (h.1 _ List.mem_cons_self).foreign found rejected (h.2 List.mem_cons_self)
      · exact .updated _ (by simp) fun _ _ _ _ => rfl
    · refine .updated _ (by simp) fun id row _ rejected => ?_
      simp [Stmt.onReview, rejected]

theorem Starter.Step.touches {b : Starter} {phase : StarterPhase} (step : b.Step cfg v m phase st) :
    Touches v.db v.written st := by
  cases effect : st with
  | none => exact .nothing
  | some x =>
    rcases step.stmt_cases effect with ⟨rfl, -⟩ | ⟨ids, rfl, -⟩ | ⟨row, rfl, -⟩
    · exact .updated _ (by simp) fun _ _ _ _ => rfl
    · refine .updated _ (by simp) fun id row _ rejected => ?_
      simp [Stmt.onReview, rejected]
    · exact .updated _ (by simp) fun _ _ _ _ => rfl

/-- Only the gate writes review rows whole. -/
theorem Worker.Step.plain {w : Worker σ} {phase : WorkerPhase σ} (step : w.Step cfg v m phase st)
    (row : ReviewRow) : st ≠ some (.putReview row) :=
  fun put => (step.updates put).1 row rfl

theorem Starter.Step.plain {b : Starter} {phase : StarterPhase} (step : b.Step cfg v m phase st)
    (row : ReviewRow) : st ≠ some (.putReview row) := by
  intro put
  rcases step.stmt_cases put with ⟨same, -⟩ | ⟨_, same, -⟩ | ⟨_, same, -⟩ <;> cases same

/-- A sound call stays sound when another's statement takes effect. -/
theorem Call.Sound.after {c : Call σ} {written : List Uuid} (h : c.Sound db)
    (touch : Touches db written st)
    (apart : ∀ row, st = some (.putReview row) → c.pending ≠ some row.id) :
    c.Sound (db.after st) := by
  cases c with
  | starter => trivial
  | worker => exact h.keeps touch.keeps
  | gate g =>
    -- the other statement neither takes the row this call will replace nor unmakes its acceptance
    simp only [Call.Sound, Gate.Sound] at h ⊢
    split at h
    next start row here =>
      obtain ⟨free, rfl⟩ := h
      refine ⟨touch.replaceable (fun row put same => apart row put ?_) free, rfl⟩
      simp [Call.pending, Gate.written, here, same, gatedRow]
    next start code row here =>
      rintro new rfl
      obtain ⟨same, free, rest⟩ := h new rfl
      refine ⟨same, touch.replaceable (fun row put eq => apart row put ?_) free, rest⟩
      simp [Call.pending, Gate.written, here, eq, same]
    next here =>
      obtain ⟨row, found, accepted⟩ := h
      obtain ⟨row', found', accepted', -⟩ := touch.keeps _ _ found accepted
      exact ⟨row', found', accepted'⟩
    next => trivial

theorem Gate.Step.sound {g : Gate} {phase : GatePhase} (step : g.Step cfg v m phase st)
    (clean : Clean v.db) (h : g.Sound v.db) : (g.enter phase).Sound (v.db.after st) := by
  cases step with
  | checked verdict start here =>
    rcases checked_cases v.db g.review verdict start with eq | ⟨_, eq⟩ | eq <;>
      simp [eq, Gate.Sound, enter]
  | counted start since here =>
    rcases counted_cases cfg v.db g.review start since with eq | ⟨-, eq⟩ <;>
      simp [eq, Gate.Sound, enter]
  | persisted start code here free =>
    intro new written
    exact persistRejected_spec clean written
  | unpersisted start code r here => simp [Gate.Sound, enter]
  | inserted start here free =>
    rcases inserted_cases v.db g.review g.eventId start with ⟨row, written, eq⟩ | eq
    · obtain ⟨rfl, absent⟩ := insertGated_spec clean written
      simpa [eq, Gate.Sound, enter, Db.after] using absent
    · simp [eq, Gate.Sound, enter]
  -- what the answer says is on file now
  | committed start result row here =>
    cases result with
    | rejected => trivial
    | passed =>
      simp only [Gate.Sound, here] at h
      obtain ⟨-, rfl⟩ := h
      exact ⟨gatedRow g.review g.eventId start, by simp [Db.after, gatedRow, Gate.enter],
        by simp [gatedRow]⟩
  | _ => trivial

/-- After a step a call has written only what no other has. -/
theorem Gate.Step.pending_free {g : Gate} {phase : GatePhase} (step : g.Step cfg v m phase st)
    (clean : Clean v.db) {row : ReviewRow} (written : (g.enter phase).written = some row) :
    row.id ∉ v.written ∧ st = none := by
  cases step with
  | checked verdict start here =>
    rcases checked_cases v.db g.review verdict start with eq | ⟨_, eq⟩ | eq <;>
      rw [eq] at written <;> cases written
  | counted start since here =>
    rcases counted_cases cfg v.db g.review start since with eq | ⟨-, eq⟩ <;>
      rw [eq] at written <;> cases written
  -- an upsert waits for the row another transaction has written
  | persisted start code here free =>
    exact ⟨(persistRejected_spec clean written).1 ▸ free, rfl⟩
  | inserted start here free =>
    rcases inserted_cases v.db g.review g.eventId start with ⟨new, put, eq⟩ | eq <;>
      rw [eq] at written <;> cases written
    obtain ⟨rfl, -⟩ := insertGated_spec clean put
    exact ⟨free, rfl⟩
  | _ => cases written

/-! ### The invariant -/

structure State.Sound (s : State σ) : Prop where
  clean : Clean s.db
  calls : ∀ (i : ℕ) (c : Call σ), s.calls[i]? = some c → c.Sound s.db
  apart : Pool.Exclusive Call.pending s.calls

theorem State.Sound.act {s : State σ} (h : s.Sound) {i : ℕ} {c' : Call σ}
    (touch : Touches s.db (s.view cfg i).written st) (mine : c'.Sound (s.db.after st))
    (free : ∀ id, c'.pending = some id → id ∉ (s.view cfg i).written) :
    State.Sound { s with db := s.db.after st, calls := s.calls.set i c' } := by
  refine ⟨touch.clean h.clean, fun j c hj => ?_, h.apart.set free⟩
  rcases Pool.getElem?_set_cases hj with ⟨-, rfl⟩ | ⟨other, old⟩
  · exact mine
  · refine (h.calls j c old).after touch fun row put pending => ?_
    -- what this statement writes, the other has not written
    cases touch with
    | nothing => cases put
    | updated st plain => exact plain row (Option.some.inj put)
    | wrote new _ unwritten _ =>
      cases put
      exact unwritten (List.mem_filterMap.mpr ⟨c, Pool.mem_others.mpr ⟨j, other, old⟩, pending⟩)

theorem State.Sound.gate {s : State σ} (h : s.Sound) {i : ℕ} {g : Gate} {phase : GatePhase}
    (here : s.calls[i]? = some (.gate g)) (gs : g.Step cfg (s.view cfg i) m phase st) :
    Touches s.db (s.view cfg i).written st :=
  gs.touches h.clean (h.calls _ _ here) fun row written =>
    h.apart.kept here (by simp [Call.pending, written])

/-- Every action does to the reviews what a single statement may. -/
theorem State.Sound.touches {s s' : State σ} {a : Action σ} (h : s.Sound)
    (step : s.step cfg a = some s') :
    ∃ st written, Touches s.db written st ∧ s'.db = s.db.after st := by
  cases State.stepped step with
  | tick | request => exact ⟨none, [], .nothing, rfl⟩
  | gate i m g phase st here gs => exact ⟨st, _, h.gate here gs, rfl⟩
  | worker i m w phase st here ws => exact ⟨st, _, ws.touches (h.calls _ _ here), rfl⟩
  | starter i m b phase st here bs => exact ⟨st, _, bs.touches, rfl⟩

theorem State.Sound.touches_of_advance {s : State σ} (h : s.Sound) {i : ℕ} {c c' : Call σ}
    (here : s.calls[i]? = some c) (moved : c.advance cfg (s.view cfg i) m = some (c', st)) :
    Touches s.db (s.view cfg i).written st := by
  cases c <;> obtain ⟨⟨x, _⟩, moved, eq⟩ := Option.map_eq_some_iff.mp moved <;> cases eq
  · obtain ⟨phase, -, gs⟩ := Gate.step_of_advance moved
    exact h.gate here gs
  · obtain ⟨phase, -, ws⟩ := Worker.step_of_advance moved
    exact ws.touches (h.calls _ _ here)
  · obtain ⟨phase, -, bs⟩ := Starter.step_of_advance moved
    exact bs.touches

theorem State.Sound.step {s s' : State σ} {a : Action σ} (h : s.Sound)
    (step : s.step cfg a = some s') : s'.Sound := by
  cases State.stepped step with
  | tick => exact ⟨h.clean, h.calls, h.apart⟩
  | request r =>
    refine ⟨h.clean, fun j c hj => ?_, h.apart.append (by cases r <;> rfl)⟩
    rcases Pool.getElem?_append_cases hj with ⟨-, rfl⟩ | hj
    · cases r <;> trivial
    · exact h.calls j c hj
  | gate i m g phase st here gs =>
    refine h.act (h.gate here gs) (gs.sound h.clean (h.calls _ _ here)) fun id pending => ?_
    obtain ⟨row, written, rfl⟩ := Option.map_eq_some_iff.mp pending
    exact (gs.pending_free h.clean written).1
  | worker i m w phase st here ws =>
    have sound : w.phase.Sound s.db := h.calls _ _ here
    have touch := ws.touches sound
    exact h.act touch ((ws.sound sound).keeps touch.keeps) fun id none => nomatch none
  | starter i m b phase st here bs =>
    exact h.act bs.touches trivial fun id none => nomatch none

theorem State.sound {ok : State σ → Action σ → Prop} {s : State σ} (reachable : Reachable cfg ok s) :
    s.Sound := by
  refine Runs.Reachable.invariant (fun s init => ?_) (fun s a s' _ h step _ => h.step step) reachable
  obtain ⟨empty, none⟩ := init
  exact ⟨by simp [Clean, empty, Db.empty, Table.empty, Table.find?], by simp [none],
    none ▸ Pool.Exclusive.nil⟩

/-! ### Acceptance -/

/-- The transaction of an acceptance is committed, whether or not its caller learns of it. -/
def Gate.Accepts (g : Gate) (m : Move σ) (start : Time) : Prop :=
  (∃ row, g.phase = .committing start .passed row) ∧ m.Lands

theorem Gate.Step.accepts {g : Gate} {phase : GatePhase} (step : g.Step cfg v m phase st)
    (h : g.Sound v.db) {start : Time} (accepts : g.Accepts m start) :
    st = some (.putReview (gatedRow g.review g.eventId start)) := by
  obtain ⟨⟨row, here⟩, took⟩ := accepts
  simp only [Gate.Sound, here] at h
  obtain ⟨-, rfl⟩ := h
  -- a commit that lands is acknowledged or not; only one that fails raises without effect
  cases step with
  | raised r answered failed =>
    obtain ⟨e, rfl⟩ := failed _ _ _ here
    exact took.elim
  | committed _ _ _ here' | lost _ _ _ _ here' =>
    rw [here] at here'
    cases here'
    rfl
  | _ => simp_all [Move.Lands]

/-- Only a committed acceptance answers that the review has passed. -/
theorem Gate.Step.passed {g : Gate} {phase : GatePhase} (step : g.Step cfg v m phase st)
    (passed : phase = .returned .passed) : ∃ start, g.Accepts m start := by
  cases step with
  | committed start result row here =>
    cases passed
    exact ⟨start, ⟨row, here⟩, trivial⟩
  | checked verdict start here =>
    rcases checked_cases v.db g.review verdict start with eq | ⟨_, eq⟩ | eq <;>
      cases eq.symm.trans passed
  | counted start since here =>
    rcases counted_cases cfg v.db g.review start since with eq | ⟨-, eq⟩ <;>
      cases eq.symm.trans passed
  | inserted start here free =>
    rcases inserted_cases v.db g.review g.eventId start with ⟨_, -, eq⟩ | eq <;>
      cases eq.symm.trans passed
  | _ => cases passed

theorem Gate.Step.puts {g : Gate} {phase : GatePhase} (step : g.Step cfg v m phase st) :
    st = none ∨ ∃ row, st = some (.putReview row) := by
  cases effect : st with
  | none => exact .inl rfl
  | some x =>
    obtain ⟨row, rfl, -⟩ := step.stmt_cases effect
    exact .inr ⟨row, rfl⟩

/-- The call has passed the check and not yet committed. -/
def Gate.Admitting (g : Gate) (start : Time) : Prop :=
  g.phase = .inserting start ∨ ∃ row, g.phase = .committing start .passed row

/-- The gate writes audit rows, and at its commit the accepted one. -/
theorem Gate.Step.put_cases {g : Gate} {phase : GatePhase} (step : g.Step cfg v m phase st)
    (clean : Clean v.db) (sound : g.Sound v.db) {row : ReviewRow} (put : st = some (.putReview row)) :
    row.status = .gateRejected ∨
      ∃ start, g.Admitting start ∧ row = gatedRow g.review g.eventId start := by
  obtain ⟨new, same, ⟨-, written⟩ | ⟨start, result, here⟩⟩ := step.stmt_cases put
  · cases same
    exact .inl (persistRejected_spec clean written).2.2.1
  · cases same
    simp only [Gate.Sound, here] at sound
    cases result with
    | passed => exact .inr ⟨start, .inr ⟨_, here⟩, Option.some.inj sound.2⟩
    | rejected code => exact .inl (sound row rfl).2.2.1

/-- The gate changes no accepted review. -/
theorem Touches.accepted_of_gate {written : List Uuid} (touch : Touches db written st)
    (gate : st = none ∨ ∃ row, st = some (.putReview row)) {id : Uuid} {row : ReviewRow}
    (found : db.reviews.find? id = some row) (accepted : row.Accepted) :
    (db.after st).reviews.find? id = some row := by
  cases touch with
  | nothing => exact found
  | wrote new free _ _ =>
    have other : id ≠ new.id := fun same => accepted (free row (same ▸ found))
    simp [Db.after, other, found]
  | updated st plain =>
    obtain none | ⟨row, put⟩ := gate
    · cases none
    · exact absurd (Option.some.inj put) (plain row)

/-- The review that a call has answered has passed. -/
def Call.passed : Call σ → Option Uuid
  | .gate ⟨review, _, .returned .passed⟩ => some review.reviewId
  | _ => none

theorem Call.passed_eq_some {c : Call σ} {id : Uuid} (h : c.passed = some id) :
    ∃ g : Gate, c = .gate g ∧ g.phase = .returned .passed ∧ g.review.reviewId = id := by
  unfold passed at h
  split at h
  · cases h
    exact ⟨_, rfl, rfl, rfl⟩
  · cases h

theorem Call.passed_gate {g : Gate} (h : g.phase = .returned .passed) :
    (Call.gate g : Call σ).passed = some g.review.reviewId := by
  obtain ⟨review, eventId, phase⟩ := g
  cases h
  rfl

theorem State.passed_once {s : State σ} (reachable : Reachable cfg Runs.Anything s) :
    Pool.Exclusive Call.passed s.calls := by
  refine Runs.Reachable.invariant (P := fun s : State σ => Pool.Exclusive Call.passed s.calls)
    (fun s init => ?_) (fun s a s' hr h step _ => ?_) reachable
  · exact init.2 ▸ Pool.Exclusive.nil
  have sound := State.sound hr
  cases State.stepped step with
  | tick => exact h
  | request r => exact h.append (by cases r <;> simp [Request.call, Call.passed])
  | worker | starter => exact h.set fun id none => nomatch none
  | gate i m g phase st here gs =>
    refine h.set fun id mine there => ?_
    obtain ⟨_, same, passed, rfl⟩ := Call.passed_eq_some mine
    cases same
    -- the acceptance replaced no accepted row, but the other call has left one
    obtain ⟨start, ⟨row, committing⟩, -⟩ := gs.passed passed
    have free : Replaceable s.db g.review.reviewId := by
      have := sound.calls _ _ here
      simp only [Call.Sound, Gate.Sound, committing] at this
      exact this.1
    obtain ⟨c, other, taken⟩ := List.mem_filterMap.mp there
    obtain ⟨j, -, hj⟩ := Pool.mem_others.mp other
    obtain ⟨g', rfl, passed', same⟩ := Call.passed_eq_some taken
    have onFile := sound.calls _ _ hj
    simp only [Call.Sound, Gate.Sound, passed'] at onFile
    obtain ⟨row, found, accepted⟩ := onFile
    exact accepted (free row (same ▸ found))

/-- A review is accepted at most once, as a first insert would have left it, and an accepted
review is immutable to the gate. -/
theorem accepted_once {s : State σ} (reachable : State.Reachable cfg Runs.Anything s) :
    (∀ (i j : ℕ) (g g' : Gate), s.calls[i]? = some (.gate g) → s.calls[j]? = some (.gate g') →
      g.review.reviewId = g'.review.reviewId → g.phase = .returned .passed →
      g'.phase = .returned .passed → i = j) ∧
    ∀ (a : Action σ) (s' : State σ), s.step cfg a = some s' →
      (∀ (i : ℕ) (m : Move σ) (g g' : Gate), a = .act i m → s.calls[i]? = some (.gate g) →
        s'.calls[i]? = some (.gate g') →
        (g'.phase = .returned .passed → ∃ start, g.Accepts m start) ∧
        (∀ start, g.Accepts m start → s'.db.reviews.find? g.review.reviewId =
          some (gatedRow g.review g.eventId start)) ∧
        ∀ id row, s.db.reviews.find? id = some row → row.Accepted →
          s'.db.reviews.find? id = some row) ∧
      ∀ id row, s.db.reviews.find? id = some row → row.Accepted →
        ∃ row', s'.db.reviews.find? id = some row' ∧ row'.Accepted ∧ row.SameSubmission row' := by
  have sound := State.sound reachable
  -- one passing call for each review; what the call that steps does; what any step spares
  refine ⟨fun i j g g' hi hj same passed passed' => ?_, fun a s' step => ⟨?_, ?_⟩⟩
  · exact State.passed_once reachable i j _ _ g.review.reviewId hi hj (Call.passed_gate passed)
      (same ▸ Call.passed_gate passed')
  · rintro i m g g' rfl here here'
    cases State.stepped step with
    | worker _ _ _ _ _ there => simp [here] at there
    | starter _ _ _ _ _ there => simp [here] at there
    | gate _ _ _ phase st there gs =>
      cases here.symm.trans there
      have within : i < s.calls.length := (List.getElem?_eq_some_iff.mp here).1
      simp only [List.getElem?_set_self within, Option.some.injEq, Call.gate.injEq] at here'
      subst here'
      refine ⟨gs.passed, fun start accepts => ?_, fun id row found accepted => ?_⟩
      · rw [gs.accepts (sound.calls _ _ here) accepts]
        simp [Db.after, gatedRow]
      · exact (sound.gate here gs).accepted_of_gate gs.puts found accepted
  · obtain ⟨st, written, touch, db⟩ := sound.touches step
    rw [db]
    exact touch.keeps

/-- A review rejected for its rater and submitted again by another one: the second call
upgrades the row of the first, up to its commit. -/
def resubmission : List (Action ℕ) :=
  [.request (.gateAndStore (sampleReview 7 2) none),
    .act 0 (.onboard (.rows [(1, "ACTIVE"), (2, "PAUSED")])), .act 0 (.reply .ok), .act 0 (.reply .ok),
    .act 0 (.reply .ok), .act 0 (.reply .ok), .act 0 (.reply .ok), .tick 9,
    .request (.gateAndStore (sampleReview 7 3) none)] ++ untilCheck 1 ++
  [.act 1 (.reply .ok), .act 1 (.reply .ok)]

theorem accepted_once_upgrade : ∃ s s' : State ℕ,
    Runs.perform (State.step defaults) .start resubmission = some s ∧
    s.step defaults (.act 1 (.reply .ok)) = some s' ∧
    s'.db.reviews.find? 7 = some (gatedRow (sampleReview 7 3) none 9) := by
  have run : Runs.perform (State.step defaults) .start resubmission = some _ := rfl
  refine ⟨_, _, run, rfl, ?_⟩
  have steps := (accepted_once (State.reachable_of_run run)).2 (.act 1 (.reply .ok)) _ rfl
  exact (steps.1 1 (.reply .ok) _ _ rfl rfl rfl).2.1 9 ⟨⟨_, rfl⟩, trivial⟩

end DostReview.Review
