import DostReview.Review.Accepted

/-!
# Audit rows

Beside a run, the rejections that take effect in it. The row of a rejected review is compared
with the last rejection of its id: a repeated rejection refreshes the reason, the event and
the time of receipt, and leaves the submission in the row that of the first.
-/
namespace DostReview.Review

variable {σ : Type} {cfg : Config σ} {db : Db σ} {v : View σ} {m : Move σ}
  {st : Option (Stmt σ)}

/-- A submission and the reason it was rejected for. -/
structure Rejection where
  review : DostReview
  eventId : Option Uuid
  code : GateCode

/-- The rejections so far, the last one first. -/
abbrev Rejections := List Rejection

def Rejections.last (rejections : Rejections) (id : Uuid) : Option Rejection :=
  rejections.find? fun r => r.review.reviewId = id

/-- The row says what this submission says. -/
structure ReviewRow.Submits (row : ReviewRow) (review : DostReview) : Prop where
  target : row.targetProfileId = review.targetProfileId
  rater : row.raterProfileId = review.raterProfileId
  text : row.reviewText = review.reviewText
  created : row.createdAt = review.createdAt

instance (row : ReviewRow) (review : DostReview) : Decidable (row.Submits review) :=
  decidable_of_iff
    (row.targetProfileId = review.targetProfileId ∧ row.raterProfileId = review.raterProfileId ∧
      row.reviewText = review.reviewText ∧ row.createdAt = review.createdAt)
    ⟨fun ⟨a, b, c, d⟩ => ⟨a, b, c, d⟩, fun ⟨a, b, c, d⟩ => ⟨a, b, c, d⟩⟩

/-- All that the row says is from this rejection. -/
structure ReviewRow.Audits (row : ReviewRow) (r : Rejection) : Prop extends
    row.Submits r.review where
  event : row.eventId = r.eventId
  reason : row.gateReason = some r.code

/-- Each audit row is from the last rejection of its id. -/
def Coherent (db : Db σ) (rejections : Rejections) : Prop :=
  ∀ id row, db.reviews.find? id = some row → row.status = .gateRejected →
    ∃ r, rejections.last id = some r ∧ row.Audits r

/-! ### The rejections of a run -/

/-- The rejection that takes effect in a step of the gate, if its reason is not `DUPLICATE`. -/
def Gate.rejection (g : Gate) (m : Move σ) : Option Rejection :=
  if m.Lands then
    match g.phase with
    -- a self-review, whose audit row is written outside any transaction
    | .entry => some ⟨g.review, g.eventId, .selfReview⟩
    | .committing _ (.rejected code) _ =>
      if code = .duplicate then none else some ⟨g.review, g.eventId, code⟩
    | _ => none
  else none

/-- The answer of `_persist_rejected`'s statement, in the steps that await it. -/
def Gate.persistReply (g : Gate) : Move σ → Option Reply
  | .reply r =>
    match g.phase with
    | .entry => some r
    | .persisting _ _ => some r
    | _ => none
  | _ => none

namespace State

/-- The gate that takes a step, with what moves it. -/
def gateStep (s : State σ) : Action σ → Option (Gate × Move σ)
  | .act i m =>
    match s.calls[i]? with
    | some (.gate g) => some (g, m)
    | _ => none
  | _ => none

def rejection (s : State σ) (a : Action σ) : Option Rejection :=
  (s.gateStep a).bind fun (g, m) => g.rejection m

end State

def noteRejection (s : State σ) (a : Action σ) (rejections : Rejections) : Rejections :=
  (s.rejection a).toList ++ rejections

/-- Every statement of `_persist_rejected` succeeds. -/
def Persists (s : State σ) (a : Action σ) : Prop :=
  ∀ x ∈ s.gateStep a, ∀ r ∈ x.1.persistReply x.2, r = .ok

/-- A review that is rejected again is the one its audit row shows. -/
def Resubmits (s : State σ) (a : Action σ) : Prop :=
  ∀ r ∈ s.rejection a, ∀ row ∈ s.db.reviews.find? r.review.reviewId,
    row.status = .gateRejected → row.Submits r.review

instance (s : State σ) (a : Action σ) : Decidable (Persists s a) := by
  unfold Persists
  exact inferInstance

instance (s : State σ) (a : Action σ) : Decidable (Resubmits s a) := by
  unfold Resubmits
  exact inferInstance

theorem gateStep_gate {s : State σ} {i : ℕ} {g : Gate} (here : s.calls[i]? = some (.gate g)) :
    s.gateStep (.act i m) = some (g, m) := by
  simp [State.gateStep, here]

theorem gateStep_worker {s : State σ} {i : ℕ} {w : Worker σ}
    (here : s.calls[i]? = some (.worker w)) : s.gateStep (.act i m) = none := by
  simp [State.gateStep, here]

theorem gateStep_starter {s : State σ} {i : ℕ} {b : Starter}
    (here : s.calls[i]? = some (.starter b)) : s.gateStep (.act i m) = none := by
  simp [State.gateStep, here]

/-! ### What a rejection and any other statement do to the audit rows -/

variable {rejections : Rejections}

theorem last_cons (r : Rejection) (id : Uuid) :
    Rejections.last (r :: rejections) id =
      if r.review.reviewId = id then some r else Rejections.last rejections id := by
  by_cases same : r.review.reviewId = id <;> simp [Rejections.last, same]

/-- The row that a rejection leaves, if any row of a rejection is there then. -/
theorem persistRejected_audits {r : Rejection} {now : Time} {row : ReviewRow}
    (written : persistRejected db r.review r.eventId r.code now = some row) :
    row.id = r.review.reviewId ∧ row.status = .gateRejected ∧
      (row.Audits r ↔ ∀ old ∈ db.reviews.find? r.review.reviewId,
        old.status = .gateRejected → old.Submits r.review) := by
  unfold persistRejected at written
  split at written
  next absent =>
    cases written
    refine ⟨rfl, rfl, fun _ => by simp [absent], fun _ => ?_⟩
    exact ⟨⟨rfl, rfl, rfl, rfl⟩, rfl, rfl⟩
  next old found =>
    split at written
    next rejected =>
      have key : old.id = r.review.reviewId := Table.key_of_find? found
      cases written
      refine ⟨key, rejected, fun audits => ?_, fun same => ?_⟩
      · -- the submission is still that of the row before
        rintro _ there -
        cases found.symm.trans there
        exact ⟨audits.target, audits.rater, audits.text, audits.created⟩
      · have submits := same old found rejected
        exact ⟨⟨submits.target, submits.rater, submits.text, submits.created⟩, rfl, rfl⟩
    next => cases written

theorem Coherent.empty : Coherent (Db.empty : Db σ) rejections := by
  intro id row found
  simp [Db.empty, Table.empty, Table.find?] at found

/-- A rejection leaves the audit rows coherent just where it is the submission on file. -/
theorem Coherent.reject (h : Coherent db rejections) (r : Rejection) (now : Time) :
    Coherent (db.after ((persistRejected db r.review r.eventId r.code now).map .putReview))
        (r :: rejections) ↔
      ∀ old ∈ db.reviews.find? r.review.reviewId, old.status = .gateRejected →
        old.Submits r.review := by
  cases written : persistRejected db r.review r.eventId r.code now with
  | none =>
    -- an accepted row stands in the way
    have accepted : ∀ old ∈ db.reviews.find? r.review.reviewId, old.Accepted := by
      rintro old found rejected
      have found : db.reviews.find? r.review.reviewId = some old := found
      simp [persistRejected, found, rejected] at written
    refine ⟨fun _ old found rejected => absurd rejected (accepted old found), fun _ => ?_⟩
    intro id row found rejected
    rw [last_cons]
    split
    next same => exact absurd rejected (accepted row (same ▸ found))
    next => exact h id row found rejected
  | some new =>
    obtain ⟨same, rejected, audits⟩ := persistRejected_audits written
    rw [← audits]
    constructor
    · intro coherent
      obtain ⟨r', last, audited⟩ := coherent r.review.reviewId new (by simp [Db.after, same]) rejected
      rw [last_cons, if_pos rfl] at last
      cases last
      exact audited
    · intro audited id row found rejected
      rw [last_cons]
      simp only [Db.after, Option.map_some, Stmt.find?_exec_putReview] at found
      by_cases here : id = new.id
      · rw [if_pos here] at found
        cases found
        exact ⟨r, if_pos (here ▸ same).symm, audited⟩
      · rw [if_neg here] at found
        have other : r.review.reviewId ≠ id := fun eq => here (eq.symm.trans same.symm)
        rw [if_neg other]
        exact h id row found rejected

/-- What puts no audit row leaves the audit rows coherent. -/
theorem Coherent.touches {written : List Uuid} (h : Coherent db rejections)
    (touch : Touches db written st)
    (accepts : ∀ row, st = some (.putReview row) → row.Accepted) :
    Coherent (db.after st) rejections := by
  intro id row' found' rejected
  cases touch with
  | nothing => exact h id row' found' rejected
  | wrote new _ _ _ =>
    simp only [Db.after, Stmt.find?_exec_putReview] at found'
    split at found'
    · cases found'
      exact absurd rejected (accepts _ rfl)
    · exact h id row' found' rejected
  | updated st plain spares =>
    obtain ⟨row, found, -, rfl⟩ := Stmt.row_before plain found'
    by_cases old : row.status = .gateRejected
    · rw [spares id row found old]
      exact h id row found old
    · exact absurd rejected (st.onReview_accepted old)

/-! ### The calls -/

/-- What a transaction writes for a rejection is what a rejection would write now, and no verdict
is `DUPLICATE`. -/
def Gate.Audited (db : Db σ) (g : Gate) : Prop :=
  match g.phase with
  | .beginning verdict => verdict ≠ some .duplicate
  | .locking verdict _ => verdict ≠ some .duplicate
  | .checking verdict _ => verdict ≠ some .duplicate
  | .persisting _ code => code ≠ .duplicate
  | .committing start (.rejected code) row =>
    row = if code = .duplicate then none else persistRejected db g.review g.eventId code start
  | _ => True

theorem validateProfiles_ne (answer : OnboardAnswer) (target rater : Uuid) :
    validateProfiles answer target rater ≠ some .duplicate := by
  unfold validateProfiles
  split
  · simp
  · simp
  · split
    · simp
    · split
      · simp
      · split
        · simp
        · split <;> simp

/-- Another call's statement does not touch what a rejection would write, unless it writes the
same review. -/
theorem persistRejected_after {written : List Uuid} (touch : Touches db written st)
    {review : DostReview} {eventId : Option Uuid} {code : GateCode} {now : Time}
    (apart : ∀ row, st = some (.putReview row) →
      (persistRejected db review eventId code now).isSome → row.id ≠ review.reviewId) :
    persistRejected (db.after st) review eventId code now =
      persistRejected db review eventId code now := by
  cases touch with
  | nothing => rfl
  | wrote new free _ _ =>
    have other : review.reviewId ≠ new.id := by
      intro same
      refine apart new rfl ?_ same.symm
      -- what the statement replaces is no accepted row
      unfold persistRejected
      cases found : db.reviews.find? review.reviewId with
      | none => rfl
      | some row => simp [free row (same ▸ found)]
    simp only [persistRejected, Db.after, Stmt.find?_exec_putReview, other, if_false]
  | updated st plain spares =>
    simp only [persistRejected, Db.after, Stmt.find?_exec st plain]
    cases found : db.reviews.find? review.reviewId with
    | none => rfl
    | some row =>
      by_cases rejected : row.status = .gateRejected
      · simp [spares _ row found rejected]
      · simp [rejected, st.onReview_accepted rejected]

theorem Gate.Audited.after {g : Gate} {written : List Uuid} (h : g.Audited db) (clean : Clean db)
    (touch : Touches db written st)
    (apart : ∀ row, st = some (.putReview row) → (Call.gate g : Call σ).pending ≠ some row.id) :
    g.Audited (db.after st) := by
  cases here : g.phase with
  | committing start result row =>
    cases result with
    | passed => simp only [Gate.Audited, here]
    | rejected code =>
      simp only [Gate.Audited, here] at h ⊢
      rw [h]
      split
      · rfl
      next named =>
        rw [if_neg named] at h
        refine (persistRejected_after touch fun new put some_ same => apart new put ?_).symm
        obtain ⟨old, eq⟩ := Option.isSome_iff_exists.mp some_
        have id := (persistRejected_spec clean eq).1
        simp [Call.pending, Gate.written, here, h, eq, id, same]
  | beginning | locking | checking | persisting =>
    simp only [Gate.Audited, here] at h ⊢
    exact h
  | _ => simp only [Gate.Audited, here]

theorem Gate.persisted_of_ok {g g' : Gate} {start : Time} {code : GateCode}
    (here : g.phase = .persisting start code)
    (moved : g.advance cfg v (.reply .ok) = some (g', st)) :
    g' = g.enter (.committing start (.rejected code)
      (persistRejected v.db g.review g.eventId code start)) ∧ st = none := by
  simp only [Gate.advance, here] at moved
  split at moved
  · cases moved
  · cases moved
    exact ⟨rfl, rfl⟩

/-- A step whose audit statements succeed keeps what the calls know. -/
theorem Gate.Audited.step {g g' : Gate} (h : g.Audited v.db)
    (moved : g.advance cfg v m = some (g', st))
    (persists : ∀ r ∈ g.persistReply m, r = .ok) : g'.Audited (v.db.after st) := by
  obtain ⟨phase, rfl, step⟩ := Gate.step_of_advance moved
  cases step with
  | validated answer here foreign => exact validateProfiles_ne _ _ _
  | begun verdict here | locked verdict start here =>
    simp only [Gate.Audited, here] at h
    exact h
  | checked verdict start here =>
    simp only [Gate.Audited, here] at h
    unfold Gate.checked Gate.enter
    split
    · exact (if_pos rfl).symm
    · cases verdict with
      | none => trivial
      | some code => exact fun same => h (congrArg some same)
  | counted start since here =>
    rcases counted_cases cfg v.db g.review start since with eq | ⟨-, eq⟩ <;> rw [eq]
    · exact nofun
    · trivial
  | persisted start code here free =>
    simp only [Gate.Audited, here] at h
    exact (if_neg h).symm
  | unpersisted start code r here =>
    obtain rfl : r = .ok := persists r (by simp [Gate.persistReply, here])
    simp only [Gate.Audited, here] at h
    obtain ⟨same, -⟩ := Gate.persisted_of_ok here moved
    rw [same]
    exact (if_neg h).symm
  | inserted start here free =>
    rcases inserted_cases v.db g.review g.eventId start with ⟨row, -, eq⟩ | eq <;> rw [eq]
    · trivial
    · exact (if_pos rfl).symm
  | _ => trivial

/-- What takes effect in a step of the gate is a rejection, noted as such, or no audit row. -/
theorem Gate.Audited.effect {g g' : Gate} (h : g.Audited v.db) (sound : g.Sound v.db)
    (moved : g.advance cfg v m = some (g', st))
    (persists : ∀ r ∈ g.persistReply m, r = .ok) :
    (∃ r now, g.rejection m = some r ∧
      st = (persistRejected v.db r.review r.eventId r.code now).map .putReview) ∨
    g.rejection m = none ∧ ∀ row, st = some (.putReview row) → row.Accepted := by
  obtain ⟨phase, rfl, step⟩ := Gate.step_of_advance moved
  -- a commit that lands puts the row of the transaction
  have commit : ∀ start result row, g.phase = .committing start result row → m.Lands →
      st = row.map .putReview →
      (∃ r now, g.rejection m = some r ∧
        st = (persistRejected v.db r.review r.eventId r.code now).map .putReview) ∨
      g.rejection m = none ∧ ∀ row, st = some (.putReview row) → row.Accepted := by
    rintro start result row here lands rfl
    cases result with
    | passed =>
      simp only [Gate.Sound, here] at sound
      obtain ⟨-, rfl⟩ := sound
      refine .inr ⟨by simp [Gate.rejection, here], ?_⟩
      rintro _ ⟨⟩
      simp [gatedRow]
    | rejected code =>
      simp only [Gate.Audited, here] at h
      by_cases duplicate : code = .duplicate
      · rw [if_pos duplicate] at h
        exact .inr ⟨by simp [Gate.rejection, here, duplicate], by simp [h]⟩
      · rw [if_neg duplicate] at h
        exact .inl ⟨⟨g.review, g.eventId, code⟩, start,
          by simp [Gate.rejection, here, duplicate, lands], by rw [h]⟩
  cases step with
  | selfReview r here selfish free =>
    obtain rfl : r = .ok := persists r (by simp [Gate.persistReply, here])
    refine .inl ⟨⟨g.review, g.eventId, .selfReview⟩, v.now, ?_, ?_⟩
    · simp [Gate.rejection, here, Move.Lands]
    · cases persistRejected v.db g.review g.eventId .selfReview v.now <;> rfl
  | committed start result row here => exact commit start result row here trivial rfl
  | lost start result row e here => exact commit start result row here trivial rfl
  | raised r bad failed =>
    refine .inr ⟨?_, by simp⟩
    -- a failed commit rejects nothing, and elsewhere nothing is rejected but at the entry
    unfold Gate.rejection
    split
    next lands =>
      split
      next here => exact absurd (persists r (by simp [Gate.persistReply, here])) bad
      next here =>
        obtain ⟨e, rfl⟩ := failed _ _ _ here
        exact lands.elim
      next => rfl
    next => rfl
  | crashed | validated => exact .inr ⟨if_neg id, by simp⟩
  | begun _ here | locked _ _ here | checked _ _ here | timed _ here
  | counted _ _ here | persisted _ _ here | unpersisted _ _ _ here | inserted _ here =>
    exact .inr ⟨by simp [Gate.rejection, here], by simp⟩

/-! ### The run -/

/-- The calls agree with the tables, and no unnoted rejection is under way. -/
structure State.Audited (s : State σ) : Prop where
  sound : s.Sound
  gates : ∀ (i : ℕ) (g : Gate), s.calls[i]? = some (.gate g) → g.Audited s.db

/-- A step keeps what the calls with some of the submissions know, if their audit statements
succeed. -/
theorem State.Sound.audited_step {P : DostReview → Option Uuid → Prop} {s s' : State σ}
    {a : Action σ} (h : s.Sound)
    (gates : ∀ (i : ℕ) (g : Gate), s.calls[i]? = some (.gate g) → P g.review g.eventId →
      g.Audited s.db)
    (step : s.step cfg a = some s')
    (persists : ∀ x ∈ s.gateStep a, P x.1.review x.1.eventId →
      ∀ r ∈ x.1.persistReply x.2, r = .ok) :
    ∀ (i : ℕ) (g : Gate), s'.calls[i]? = some (.gate g) → P g.review g.eventId →
      g.Audited s'.db := by
  cases a with
  | tick =>
    cases step
    exact gates
  | request r =>
    cases step
    intro j g hj meant
    rcases Pool.getElem?_append_cases hj with ⟨-, same⟩ | old
    · cases r <;> cases same
      trivial
    · exact gates j g old meant
  | act i m =>
    obtain ⟨c, c', st, here, moved, rfl⟩ := State.acted step
    have touch := h.touches_of_advance here moved
    intro j g hj meant
    rcases Pool.getElem?_set_cases hj with ⟨rfl, rfl⟩ | ⟨other, old⟩
    · cases c <;> obtain ⟨⟨x, st⟩, moved, eq⟩ := Option.map_eq_some_iff.mp moved <;> cases eq
      -- a step leaves the submission of its call as it is
      obtain ⟨phase, rfl, -⟩ := Gate.step_of_advance moved
      exact (gates j _ here meant).step moved (persists (_, m) (gateStep_gate here) meant)
    · refine (gates j g old meant).after h.clean touch fun row put pending => ?_
      -- what this statement writes, the other has not written
      cases touch with
      | nothing => cases put
      | updated st plain => exact plain row (Option.some.inj put)
      | wrote new _ unwritten _ =>
        cases put
        exact unwritten (List.mem_filterMap.mpr ⟨_, Pool.mem_others.mpr ⟨j, other, old⟩, pending⟩)

theorem State.Audited.step {s s' : State σ} {a : Action σ} (h : s.Audited)
    (step : s.step cfg a = some s') (persists : Persists s a) : s'.Audited :=
  ⟨h.sound.step step, fun i g there => h.sound.audited_step (P := fun _ _ => True)
    (fun i g here _ => h.gates i g here) step (fun x moved _ => persists x moved) i g there trivial⟩

/-- A step leaves the audit rows coherent just where it rejects no other submission than the one
on file. -/
theorem Coherent.step {s s' : State σ} {a : Action σ} (h : Coherent s.db rejections)
    (audited : s.Audited) (step : s.step cfg a = some s') (persists : Persists s a) :
    Coherent s'.db (noteRejection s a rejections) ↔ Resubmits s a := by
  -- without a rejection there is nothing to compare
  have quiet : s.rejection a = none → Coherent s'.db rejections →
      (Coherent s'.db (noteRejection s a rejections) ↔ Resubmits s a) := by
    intro none coherent
    refine ⟨fun _ r noted => by simp [none] at noted, fun _ => ?_⟩
    simpa [noteRejection, none] using coherent
  cases a with
  | tick =>
    cases step
    exact quiet rfl h
  | request r =>
    cases step
    exact quiet rfl h
  | act i m =>
    obtain ⟨c, c', st, here, moved, rfl⟩ := State.acted step
    have touch := audited.sound.touches_of_advance here moved
    cases c with
    | worker w =>
      obtain ⟨⟨x, st⟩, moved, eq⟩ := Option.map_eq_some_iff.mp moved
      cases eq
      obtain ⟨phase, -, ws⟩ := Worker.step_of_advance moved
      exact quiet (by simp [State.rejection, gateStep_worker here])
        (h.touches touch fun row put => absurd put (ws.plain row))
    | starter b =>
      obtain ⟨⟨x, st⟩, moved, eq⟩ := Option.map_eq_some_iff.mp moved
      cases eq
      obtain ⟨phase, -, bs⟩ := Starter.step_of_advance moved
      exact quiet (by simp [State.rejection, gateStep_starter here])
        (h.touches touch fun row put => absurd put (bs.plain row))
    | gate g =>
      obtain ⟨⟨g', st⟩, moved, eq⟩ := Option.map_eq_some_iff.mp moved
      cases eq
      have rejection : s.rejection (.act i m) = g.rejection m := by
        simp [State.rejection, gateStep_gate here]
      have sound : g.Sound s.db := audited.sound.calls i _ here
      rcases Gate.Audited.effect (audited.gates i g here) sound moved
        (persists (g, m) (gateStep_gate here)) with ⟨r, now, noted, rfl⟩ | ⟨none, accepts⟩
      · rw [noteRejection, Resubmits, rejection, noted]
        refine (h.reject r now).trans ⟨fun same r' mem => ?_, fun same => same r rfl⟩
        cases mem
        exact same
      · exact quiet (rejection.trans none) (h.touches touch accepts)

/-- With every audit statement succeeding, the audit rows stay coherent as long as every review
that is rejected again is resubmitted as it was: the first resubmission that differs from the
row of an earlier rejection leaves them incoherent. -/
theorem audit_rows_coherent {s : State σ} {rejections : Rejections}
    (reachable : Runs.Reachable (Runs.Noted State.Init [])
      (Runs.recorded (State.step cfg) noteRejection)
      (fun x a => Persists x.1 a ∧ Resubmits x.1 a) (s, rejections)) :
    Coherent s.db rejections ∧
    ∀ (a : Action σ) (s' : State σ), s.step cfg a = some s' → Persists s a →
      (Coherent s'.db (noteRejection s a rejections) ↔ Resubmits s a) := by
  have both : s.Audited ∧ Coherent s.db rejections := by
    refine reachable.invariant (P := fun x : State σ × Rejections =>
      x.1.Audited ∧ Coherent x.1.db x.2) (fun x init => ?_) fun x a y _ h step ok => ?_
    · obtain ⟨⟨db, now, calls⟩, notes⟩ := x
      obtain ⟨⟨rfl, rfl⟩, rfl⟩ := init
      have first : Runs.Reachable State.Init (State.step cfg) Runs.Anything ⟨.empty, now, []⟩ :=
        .start ⟨rfl, rfl⟩
      exact ⟨⟨State.sound first, by simp⟩, .empty⟩
    · obtain ⟨moved, noted⟩ := Runs.recorded_eq_some.mp step
      refine ⟨h.1.step moved ok.1, ?_⟩
      rw [noted]
      exact (h.2.step h.1 moved ok.1).mpr ok.2
  exact ⟨both.2, fun a s' step persists => both.2.step both.1 step persists⟩

/-- A self-review rejected twice, the second time as the review of another rater. -/
def rejectedTwice (rater : Uuid) : List (Action ℕ) :=
  [.request (.gateAndStore ⟨7, 2, 2, "Helpful", none, 0⟩ none), .act 0 (.reply .ok),
    .request (.gateAndStore ⟨7, rater, rater, "Helpful", none, 0⟩ (some 9)), .act 1 (.reply .ok)]

theorem audit_rows_coherent_twice : ∃ (s : State ℕ) (rejections : Rejections),
    Runs.performGuarded (Runs.recorded (State.step defaults) noteRejection)
      (fun x a => Persists x.1 a ∧ Resubmits x.1 a) (.start, []) (rejectedTwice 2) =
        some (s, rejections) ∧
    Coherent s.db rejections := by
  have run : Runs.performGuarded (Runs.recorded (State.step defaults) noteRejection)
      (fun x a => Persists x.1 a ∧ Resubmits x.1 a) (.start, []) (rejectedTwice 2) =
        some _ := rfl
  exact ⟨_, _, run, (audit_rows_coherent (.performGuarded (.start ⟨⟨rfl, rfl⟩, rfl⟩) run)).1⟩

/-- The row of the review 7 names the rater of the first rejection beside the event of the
second. -/
theorem audit_rows_incoherent :
    ¬∀ (s : State ℕ) (rejections : Rejections), Runs.Reachable (Runs.Noted State.Init [])
        (Runs.recorded (State.step defaults) noteRejection) (fun x a => Persists x.1 a)
        (s, rejections) → Coherent s.db rejections := by
  intro claim
  have run : Runs.performGuarded (Runs.recorded (State.step defaults) noteRejection)
      (fun x a => Persists x.1 a) (.start, []) (rejectedTwice 3) = some _ := rfl
  obtain ⟨r, last, audits⟩ := claim _ _ (.performGuarded (.start ⟨⟨rfl, rfl⟩, rfl⟩) run) 7 _ rfl rfl
  cases last
  exact absurd audits.rater (by decide)

end DostReview.Review
