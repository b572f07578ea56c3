import DostReview.Review.Accepted

/-!
# Resubmitting an accepted review

A call of the gate for a review that has been accepted, in every interleaving with the
other calls. It answers that the review is a duplicate and leaves the tables alone, unless
the payload names one profile as rater and target: that check comes before all others.
-/
namespace DostReview.Review

variable {σ : Type} {cfg : Config σ} {v : View σ} {m : Move σ} {st : Option (Stmt σ)}

/-- The phases through which a call goes for a review that has been accepted. -/
def GatePhase.Refuses : GatePhase → Prop
  | .entry => True
  | .beginning _ => True
  | .locking _ _ => True
  | .checking _ _ => True
  | .committing _ result row => result = .rejected .duplicate ∧ row = none
  | .returned result => result = .rejected .duplicate
  | .gone => True
  | _ => False

def Submitted (db : Db σ) (id : Uuid) : Prop := ∃ row, db.reviews.find? id = some row ∧ row.Accepted

theorem Submitted.not_replaceable {db : Db σ} {id : Uuid} (h : Submitted db id) :
    ¬Replaceable db id := by
  obtain ⟨row, found, accepted⟩ := h
  exact fun free => accepted (free row found)

theorem Gate.checked_submitted {db : Db σ} {review : DostReview} (h : Submitted db review.reviewId)
    (verdict : Option GateCode) (start : Time) :
    checked db review verdict start = .committing start (.rejected .duplicate) none := by
  obtain ⟨row, found, accepted⟩ := h
  have already : alreadySubmitted db review = true := by
    simp [alreadySubmitted, found, accepted]
  simp [checked, already]

/-- One step of such a call: it stays on its way to the answer and writes nothing. -/
theorem Gate.Step.refuses {g : Gate} {phase : GatePhase} (step : g.Step cfg v m phase st)
    (onFile : Submitted v.db g.review.reviewId) (foreign : ¬g.SelfReview)
    (h : g.phase.Refuses) : phase.Refuses ∧ st = none := by
  cases step with
  | crashed | raised | validated | begun | locked => exact ⟨trivial, rfl⟩
  | selfReview r here selfish => exact absurd selfish foreign
  | checked verdict start here =>
    rw [checked_submitted onFile]
    exact ⟨⟨rfl, rfl⟩, rfl⟩
  | committed start result row here =>
    rw [here] at h
    obtain ⟨rfl, rfl⟩ := h
    exact ⟨rfl, rfl⟩
  | lost start result row e here =>
    rw [here] at h
    obtain ⟨rfl, rfl⟩ := h
    exact ⟨trivial, rfl⟩
  -- the later phases are those of a review that is not on file
  | timed start here | counted start since here | persisted start code here
  | unpersisted start code r here | inserted start here =>
    rw [here] at h
    exact h.elim

/-! ### The call alone -/

/-- The call at the place reaches its answer by its own steps, each statement acknowledged and
Onboard answering as given, and leaves the tables as they are. -/
def AnswersDuplicate (cfg : Config σ) (i : ℕ) (answer : OnboardAnswer) (s : State σ) : Prop :=
  ∃ (moves : List (Move σ)) (s' : State σ), (∀ m ∈ moves, m = .reply .ok ∨ m = .onboard answer) ∧
    Runs.perform (State.step cfg) s (moves.map (.act i)) = some s' ∧ s'.db = s.db ∧
    ∃ g, s'.calls[i]? = some (.gate g) ∧ g.phase = .returned (.rejected .duplicate)

/-- The steps that a call for an accepted review still has to take. -/
def GatePhase.toGo : GatePhase → ℕ
  | .entry => 5
  | .beginning _ => 4
  | .locking _ _ => 3
  | .checking _ _ => 2
  | .committing _ _ _ => 1
  | _ => 0

/-- Such a call can always take its next step, unless another holds the lock of its pair. -/
theorem Gate.refusing_step {g : Gate} (answer : OnboardAnswer)
    (onFile : Submitted v.db g.review.reviewId) (foreign : ¬g.SelfReview) (h : g.phase.Refuses)
    {n : ℕ} (left : g.phase.toGo = n + 1) (free : g.pairLock cfg ∉ v.locked) :
    ∃ m phase, (m = .reply .ok ∨ m = .onboard answer) ∧
      g.advance cfg v m = some (g.enter phase, none) ∧ phase.Refuses ∧ phase ≠ .gone ∧
      phase.toGo = n := by
  cases here : g.phase with
  | entry =>
    rw [here] at left
    obtain rfl : n = 4 := by simp only [GatePhase.toGo] at left; omega
    exact ⟨.onboard answer,
      .beginning (validateProfiles answer g.review.targetProfileId g.review.raterProfileId), .inr rfl,
      by simp only [advance, here, foreign, if_false], trivial, by simp, rfl⟩
  | beginning verdict =>
    rw [here] at left
    obtain rfl : n = 3 := by simp only [GatePhase.toGo] at left; omega
    exact ⟨.reply .ok, .locking verdict v.now, .inl rfl, by simp only [advance, here], trivial,
      by simp, rfl⟩
  | locking verdict start =>
    rw [here] at left
    obtain rfl : n = 2 := by simp only [GatePhase.toGo] at left; omega
    exact ⟨.reply .ok, .checking verdict start, .inl rfl,
      by simp only [advance, here, free, if_false], trivial, by simp, rfl⟩
  | checking verdict start =>
    rw [here] at left
    obtain rfl : n = 1 := by simp only [GatePhase.toGo] at left; omega
    exact ⟨.reply .ok, .committing start (.rejected .duplicate) none, .inl rfl,
      by simp only [advance, here, checked_submitted onFile], ⟨rfl, rfl⟩, by simp, rfl⟩
  | committing start result row =>
    rw [here] at left h
    obtain rfl : n = 0 := by simp only [GatePhase.toGo] at left; omega
    obtain ⟨rfl, rfl⟩ := h
    exact ⟨.reply .ok, .returned (.rejected .duplicate), .inl rfl,
      by simp only [advance, here, Option.map_none], rfl, by simp, rfl⟩
  | returned | gone | timing | counting | persisting | inserting =>
    rw [here] at left
    cases left

theorem State.step_act {s : State σ} {i : ℕ} {c c' : Call σ} (here : s.calls[i]? = some c)
    (moved : c.advance cfg (s.view cfg i) m = some (c', st)) :
    s.step cfg (.act i m) = some { s with db := s.db.after st, calls := s.calls.set i c' } := by
  simp [State.step, here, moved]

theorem State.step_gate {s : State σ} {i : ℕ} {g g' : Gate} (here : s.calls[i]? = some (.gate g))
    (moved : g.advance cfg (s.view cfg i) m = some (g', st)) :
    s.step cfg (.act i m) =
      some { s with db := s.db.after st, calls := s.calls.set i (.gate g') } :=
  State.step_act here (by simp [Call.advance, moved])

/-- A call's own steps do not change what it sees of the others. -/
theorem State.view_set (cfg : Config σ) (s : State σ) (i : ℕ) (c : Call σ) :
    State.view cfg { s with calls := s.calls.set i c } i = s.view cfg i := by
  have same : Pool.others (s.calls.set i c) i = Pool.others s.calls i := by
    simp only [Pool.others, List.eraseIdx_set_eq]
  simp only [State.view, same]

theorem State.answersDuplicate {s : State σ} {i : ℕ} {g : Gate} (answer : OnboardAnswer)
    (here : s.calls[i]? = some (.gate g)) (onFile : Submitted s.db g.review.reviewId)
    (foreign : ¬g.SelfReview) (h : g.phase.Refuses) (alive : g.phase ≠ .gone)
    (free : g.pairLock cfg ∉ (s.view cfg i).locked) : AnswersDuplicate cfg i answer s := by
  -- by induction on the steps to go; with none to go it has answered
  induction left : g.phase.toGo generalizing s g with
  | zero =>
    refine ⟨[], s, by simp, rfl, rfl, g, here, ?_⟩
    cases phase : g.phase with
    | returned result =>
      rw [phase] at h
      exact congrArg _ h
    | gone => exact absurd phase alive
    | timing | counting | persisting | inserting =>
      rw [phase] at h
      exact h.elim
    | _ =>
      rw [phase] at left
      cases left
  | succ n ih =>
    obtain ⟨m, phase, own, moved, refuses, alive', fewer⟩ :=
      Gate.refusing_step (v := s.view cfg i) answer onFile foreign h left free
    have within : i < s.calls.length := (List.getElem?_eq_some_iff.mp here).1
    have first := State.step_gate here moved
    obtain ⟨moves, s', mine, ran, same, answered⟩ :=
      ih (s := { s with calls := s.calls.set i (.gate (g.enter phase)) })
        (List.getElem?_set_self within) onFile foreign refuses alive'
        (by rw [State.view_set]; exact free) fewer
    refine ⟨m :: moves, s', ?_, ?_, same, answered⟩
    · intro m' mem
      rcases List.mem_cons.mp mem with rfl | mem
      · exact own
      · exact mine m' mem
    · simp only [List.map_cons, Runs.perform, first, Option.bind_some]
      exact ran

/-! ### The call among others -/

/-- A call for the review, made now, answers `DUPLICATE` if anything, in every interleaving
with the other calls; none of its steps changes a review; and whenever no other call holds the
lock of its pair it can take all the steps to that answer, whatever Onboard says. -/
def AlwaysDuplicate (cfg : Config σ) (s : State σ) (review : DostReview) : Prop :=
  ∀ (eventId : Option Uuid) (t : State σ),
    Runs.Reachable (fun u => s.step cfg (.request (.gateAndStore review eventId)) = some u)
      (State.step cfg) Runs.Anything t →
    ∃ g, t.calls[s.calls.length]? = some (.gate g) ∧
      (∀ result, g.phase = .returned result → result = .rejected .duplicate) ∧
      (∀ m t', t.step cfg (.act s.calls.length m) = some t' → t'.db.reviews = t.db.reviews) ∧
      (g.phase ≠ .gone → g.pairLock cfg ∉ (t.view cfg s.calls.length).locked →
        ∀ answer, AnswersDuplicate cfg s.calls.length answer t)

/-- What holds of the call and the tables from the request on. -/
structure Refusing (i : ℕ) (review : DostReview) (t : State σ) : Prop where
  sound : t.Sound
  onFile : Submitted t.db review.reviewId
  call : ∃ g, t.calls[i]? = some (.gate g) ∧ g.review = review ∧ g.phase.Refuses

theorem Refusing.step {i : ℕ} {review : DostReview} {t t' : State σ} {a : Action σ}
    (h : Refusing i review t) (foreign : review.raterProfileId ≠ review.targetProfileId)
    (step : t.step cfg a = some t') : Refusing i review t' := by
  obtain ⟨g, here, rfl, refuses⟩ := h.call
  have within : i < t.calls.length := (List.getElem?_eq_some_iff.mp here).1
  refine ⟨h.sound.step step, ?_, ?_⟩
  · -- an accepted review stays accepted
    obtain ⟨row, found, accepted⟩ := h.onFile
    obtain ⟨st, written, touch, db⟩ := h.sound.touches step
    obtain ⟨row', found', accepted', -⟩ := touch.keeps _ _ found accepted
    exact ⟨row', db ▸ found', accepted'⟩
  -- only its own steps change the call
  have kept : ∀ j c, j ≠ i → (t.calls.set j c)[i]? = some (.gate g) := by
    intro j c other
    rw [List.getElem?_set_ne other, here]
  cases State.stepped step with
  | tick => exact ⟨g, here, rfl, refuses⟩
  | request r => exact ⟨g, by rw [List.getElem?_append_left within, here], rfl, refuses⟩
  | gate j m g' phase st there gs =>
    by_cases mine : j = i
    · subst mine
      cases here.symm.trans there
      have next := gs.refuses h.onFile foreign refuses
      exact ⟨g.enter phase, List.getElem?_set_self within, rfl, next.1⟩
    · exact ⟨g, kept j _ mine, rfl, refuses⟩
  | worker j m w phase st there ws =>
    exact ⟨g, kept j _ (by rintro rfl; simp [here] at there), rfl, refuses⟩
  | starter j m b phase st there bs =>
    exact ⟨g, kept j _ (by rintro rfl; simp [here] at there), rfl, refuses⟩

theorem alwaysDuplicate_of_foreign {s : State σ} (sound : s.Sound) {review : DostReview}
    (onFile : Submitted s.db review.reviewId)
    (foreign : review.raterProfileId ≠ review.targetProfileId) : AlwaysDuplicate cfg s review := by
  intro eventId t later
  have all : Refusing s.calls.length review t := by
    refine later.invariant (fun u made => ?_) fun u a u' _ h step _ => h.step foreign step
    refine ⟨sound.step made, ?_, ?_⟩
    · cases made
      exact onFile
    · cases made
      exact ⟨_, List.getElem?_concat_length, rfl, trivial⟩
  obtain ⟨g, here, rfl, refuses⟩ := all.call
  refine ⟨g, here, ?_, ?_, ?_⟩
  · intro result phase
    rw [phase] at refuses
    exact refuses
  · intro m t' step
    cases State.stepped step with
    | gate _ _ _ phase st there gs =>
      cases here.symm.trans there
      rw [(gs.refuses all.onFile foreign refuses).2]
      rfl
    | worker _ _ _ _ _ there => simp [here] at there
    | starter _ _ _ _ _ there => simp [here] at there
  · intro alive free answer
    exact State.answersDuplicate answer here all.onFile foreign refuses alive free

/-- A self-review is answered before the duplicate check. -/
theorem not_alwaysDuplicate_of_selfReview {s : State σ} (sound : s.Sound) {review : DostReview}
    (onFile : Submitted s.db review.reviewId)
    (self : review.raterProfileId = review.targetProfileId) : ¬AlwaysDuplicate cfg s review := by
  intro always
  let g : Gate := ⟨review, none, .entry⟩
  let asked : State σ := { s with calls := s.calls ++ [.gate g] }
  have made : s.step cfg (.request (.gateAndStore review none)) = some asked := rfl
  have here : asked.calls[s.calls.length]? = some (.gate g) := List.getElem?_concat_length
  have within : s.calls.length < asked.calls.length := (List.getElem?_eq_some_iff.mp here).1
  -- no other call is writing the row of an accepted review
  have free : review.reviewId ∉ (asked.view cfg s.calls.length).written := by
    intro there
    obtain ⟨c, other, writing⟩ := List.mem_filterMap.mp there
    obtain ⟨j, -, hj⟩ := Pool.mem_others.mp other
    cases c with
    | worker | starter => cases writing
    | gate g' =>
      obtain ⟨row, written, same⟩ := Option.map_eq_some_iff.mp writing
      have soundly := ((sound.step made).calls j _ hj : g'.Sound asked.db).written written
      exact onFile.not_replaceable (same ▸ soundly.1 ▸ soundly.2.1)
  have answers : g.advance cfg (asked.view cfg s.calls.length) (.reply .ok) =
      some (g.enter (.returned (.rejected .selfReview)), _) := if_pos ⟨self, free⟩
  have moved := State.step_gate here answers
  obtain ⟨g', answered, only, -⟩ := always none _ (.next (.start made) moved trivial)
  rw [List.getElem?_set_self within] at answered
  cases answered
  have wrong := only _ rfl
  cases wrong

/-- A call for an accepted review answers `DUPLICATE` and changes no review exactly when its
payload does not name one profile as both rater and target. -/
theorem resubmission_duplicate {s : State σ} (reachable : State.Reachable cfg Runs.Anything s)
    {review : DostReview} {row : ReviewRow} (found : s.db.reviews.find? review.reviewId = some row)
    (accepted : row.Accepted) :
    AlwaysDuplicate cfg s review ↔ review.raterProfileId ≠ review.targetProfileId := by
  have sound := State.sound reachable
  constructor
  · intro always self
    exact not_alwaysDuplicate_of_selfReview sound ⟨row, found, accepted⟩ self always
  · intro foreign
    exact alwaysDuplicate_of_foreign sound ⟨row, found, accepted⟩ foreign

/-- The review 7 is accepted. -/
def acceptsSeven : List (Action ℕ) :=
  .request (.gateAndStore (sampleReview 7 2) none) :: untilCheck 0 ++ checkAndCommit 0

/-- The review is submitted again, by another rater. -/
theorem resubmission_duplicate_seven : ∃ s : State ℕ,
    Runs.perform (State.step defaults) .start acceptsSeven = some s ∧
      AlwaysDuplicate defaults s (sampleReview 7 3) := by
  have run : Runs.perform (State.step defaults) .start acceptsSeven = some _ := rfl
  refine ⟨_, run, ?_⟩
  exact (resubmission_duplicate (State.reachable_of_run run) rfl (by decide)).mpr (by decide)

/-- The accepted review 7 is submitted again with its target as the rater. -/
theorem self_resubmission_not_duplicate :
    ¬∀ (s : State ℕ) (review : DostReview) (row : ReviewRow),
      State.Reachable defaults Runs.Anything s → s.db.reviews.find? review.reviewId = some row →
      row.Accepted → AlwaysDuplicate defaults s review := by
  intro claim
  have run : Runs.perform (State.step defaults) .start acceptsSeven = some _ := rfl
  have reached := State.reachable_of_run run
  have accepted : (gatedRow (sampleReview 7 2) none 0).Accepted := by decide
  have answered : ¬AlwaysDuplicate defaults _ (sampleReview 7 1) :=
    not_alwaysDuplicate_of_selfReview (State.sound reached) ⟨_, rfl, accepted⟩ rfl
  exact answered (claim _ (sampleReview 7 1) _ reached rfl accepted)

end DostReview.Review
