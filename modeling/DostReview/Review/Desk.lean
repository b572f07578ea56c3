import Mathlib.Data.Set.Card
import DostReview.Library.Traces
import DostReview.Review.RateLimit

/-!
# The gate as a desk

What `gate_and_store` is for, with nothing going on at the same time: a desk that takes
submissions, asks Onboard about them, decides each at one moment from the reviews accepted so far,
and answers. Audit rows, locks, transactions and failures have no place here.
-/
namespace DostReview.Review

variable {σ : Type} {cfg : Config σ}

/-- How far a submission has come at the desk. -/
inductive Ticket
  | waiting (review : DostReview) (eventId : Option Uuid) (asked : Time)
      (consulted : Option (Option GateCode))
  | decided (result : GateResult)
  | answered (result : GateResult)

/-- What the callers and Onboard see of the submissions. -/
inductive DeskEvent
  | asked (i : ℕ) (review : DostReview) (eventId : Option Uuid)
  | consulted (i : ℕ) (answer : OnboardAnswer)
  | answered (i : ℕ) (result : GateResult)

structure Desk where
  accepted : Uuid → Option ReviewRow
  now : Time
  tickets : ℕ → Option Ticket

namespace Desk

/-- The accepted reviews of a pair received from a time on. -/
noncomputable def recent (d : Desk) (rater target : Uuid) (since : Time) : ℕ :=
  Set.ncard {id | ∃ row, d.accepted id = some row ∧ countsFrom rater target since row = true}

/-- The rules, in their order. -/
noncomputable def decision (limit : ℕ) (d : Desk) (review : DostReview) (verdict : Option GateCode)
    (since : Time) : GateResult :=
  if review.raterProfileId = review.targetProfileId then .rejected .selfReview
  else if (d.accepted review.reviewId).isSome then .rejected .duplicate
  else
    match verdict with
    | some code => .rejected code
    | none =>
      if limit ≤ d.recent review.raterProfileId review.targetProfileId since then
        .rejected .rateLimited
      else .passed

def turn (d : Desk) (i : ℕ) (ticket : Ticket) : Desk :=
  { d with tickets := Function.update d.tickets i (some ticket) }

/-- A review that passes is accepted with the decision. -/
def decide (d : Desk) (i : ℕ) (review : DostReview) (eventId : Option Uuid) (received : Time)
    (result : GateResult) : Desk :=
  { d.turn i (.decided result) with
    accepted :=
      if result = .passed then
        Function.update d.accepted review.reviewId (some (gatedRow review eventId received))
      else d.accepted }

variable {d : Desk} {i j : ℕ} {ticket : Ticket}

@[simp]
theorem turn_ticket : (d.turn i ticket).tickets i = some ticket := Function.update_self i _ _

theorem decide_rejected (review : DostReview) (eventId : Option Uuid) (received : Time)
    (code : GateCode) :
    d.decide i review eventId received (.rejected code) = d.turn i (.decided (.rejected code)) := by
  simp [decide, turn]

theorem turn_other (other : j ≠ i) : (d.turn i ticket).tickets j = d.tickets j :=
  Function.update_of_ne other _ _

end Desk

/-- The batches work on the accepted reviews: none comes, none goes, and each stays the same
submission. -/
def Revised (accepted accepted' : Uuid → Option ReviewRow) : Prop :=
  ∀ id, Option.Rel (fun row row' => row'.Accepted ∧ row.SameSubmission row')
    (accepted id) (accepted' id)

/-- The steps of the desk, and what they show. The review is received at some time between the
question and the decision, and the 24 hours are counted back from a later one. -/
inductive Desk.Step (limit : ℕ) (d : Desk) : List DeskEvent → Desk → Prop
  | time (now : Time) : d.now ≤ now → Step limit d [] { d with now := now }
  | revise (accepted : Uuid → Option ReviewRow) : Revised d.accepted accepted →
      Step limit d [] { d with accepted := accepted }
  | ask (i : ℕ) (review : DostReview) (eventId : Option Uuid) : d.tickets i = none →
      Step limit d [.asked i review eventId] (d.turn i (.waiting review eventId d.now none))
  | consult (i : ℕ) (review : DostReview) (eventId : Option Uuid) (asked : Time)
      (answer : OnboardAnswer) : d.tickets i = some (.waiting review eventId asked none) →
      Step limit d [.consulted i answer] (d.turn i (.waiting review eventId asked
        (some (validateProfiles answer review.targetProfileId review.raterProfileId))))
  | decide (i : ℕ) (review : DostReview) (eventId : Option Uuid) (asked received since : Time)
      (consulted : Option (Option GateCode)) :
      d.tickets i = some (.waiting review eventId asked consulted) →
      (consulted = none → review.raterProfileId = review.targetProfileId) →
      asked ≤ received → received ≤ since + day → since + day ≤ d.now →
      Step limit d []
        (d.decide i review eventId received (d.decision limit review consulted.join since))
  | answer (i : ℕ) (result : GateResult) : d.tickets i = some (.decided result) →
      Step limit d [.answered i result] (d.turn i (.answered result))

def Desk.Init (d : Desk) : Prop := d.accepted = (fun _ => none) ∧ d.tickets = fun _ => none

/-! ### The desk that a database stands for -/

/-- The accepted reviews. -/
def acceptedOf (db : Db σ) (id : Uuid) : Option ReviewRow :=
  (db.reviews.find? id).filter (·.status ≠ .gateRejected)

variable {db db' : Db σ}

theorem acceptedOf_eq_some {id : Uuid} {row : ReviewRow} :
    acceptedOf db id = some row ↔ db.reviews.find? id = some row ∧ row.Accepted := by
  simp [acceptedOf, Option.filter_eq_some_iff, ReviewRow.Accepted]

theorem acceptedOf_eq_none {id : Uuid} : acceptedOf db id = none ↔ Replaceable db id := by
  rw [Option.eq_none_iff_forall_ne_some]
  constructor
  · intro none row found
    by_contra accepted
    exact none row (acceptedOf_eq_some.mpr ⟨found, accepted⟩)
  · intro free row some
    obtain ⟨found, accepted⟩ := acceptedOf_eq_some.mp some
    exact accepted (free row found)

/-- Two databases with the same accepted rows. -/
theorem acceptedOf_congr {id : Uuid} (same : ∀ row, row.Accepted →
    (db'.reviews.find? id = some row ↔ db.reviews.find? id = some row)) :
    acceptedOf db' id = acceptedOf db id := by
  ext row
  rw [acceptedOf_eq_some, acceptedOf_eq_some]
  exact and_congr_left fun accepted => same row accepted

theorem isSome_acceptedOf (review : DostReview) :
    (acceptedOf db review.reviewId).isSome = alreadySubmitted db review := by
  unfold acceptedOf alreadySubmitted
  cases db.reviews.find? review.reviewId with
  | none => rfl
  | some row => by_cases rejected : row.status = .gateRejected <;> simp [rejected]

theorem recent_acceptedOf {d : Desk} (same : d.accepted = acceptedOf db) (rater target : Uuid)
    (since : Time) :
    d.recent rater target since = db.reviews.count (countsFrom rater target since) := by
  rw [← Table.card_keysWhere, ← Set.ncard_coe_finset, Desk.recent, same]
  congr 1
  ext id
  simp only [Set.mem_ofPred_eq, Finset.mem_coe, Table.mem_keysWhere, acceptedOf_eq_some]
  refine exists_congr fun row => ⟨fun h => ⟨h.1.1, h.2⟩, fun h => ⟨⟨h.1, ?_⟩, h.2⟩⟩
  have counted := h.2
  simp only [countsFrom, decide_eq_true_eq] at counted
  exact counted.2.2.2

section

variable {d : Desk} (same : d.accepted = acceptedOf db) {limit : ℕ} {review : DostReview}
  {since : Time}

include same

theorem decision_duplicate {verdict : Option GateCode}
    (foreign : review.raterProfileId ≠ review.targetProfileId)
    (submitted : alreadySubmitted db review = true) :
    d.decision limit review verdict since = .rejected .duplicate := by
  simp [Desk.decision, foreign, same, isSome_acceptedOf, submitted]

theorem decision_verdict {code : GateCode}
    (foreign : review.raterProfileId ≠ review.targetProfileId)
    (new : alreadySubmitted db review = false) :
    d.decision limit review (some code) since = .rejected code := by
  simp [Desk.decision, foreign, same, isSome_acceptedOf, new]

theorem decision_limit (foreign : review.raterProfileId ≠ review.targetProfileId)
    (new : alreadySubmitted db review = false) :
    d.decision limit review none since =
      if limit ≤ db.reviews.count (countsFrom review.raterProfileId review.targetProfileId since) then
        .rejected .rateLimited
      else .passed := by
  simp [Desk.decision, foreign, recent_acceptedOf same, same, isSome_acceptedOf, new]

end

/-- An audit row is none of the accepted ones. -/
theorem acceptedOf_audit {row : ReviewRow} (rejected : row.status = .gateRejected)
    (free : Replaceable db row.id) : acceptedOf (db.after (some (.putReview row))) = acceptedOf db := by
  funext id
  by_cases mine : id = row.id
  · rw [mine, acceptedOf_eq_none.mpr free, acceptedOf_eq_none]
    intro new found
    have put : row = new := by simpa [Db.after] using found
    exact put ▸ rejected
  · refine acceptedOf_congr fun new _ => ?_
    simp [Db.after, mine]

/-- Nothing is written but audit rows. -/
theorem acceptedOf_after {st : Option (Stmt σ)} (puts : st = none ∨ ∃ row, st = some (.putReview row))
    (audit : ∀ row, st = some (.putReview row) →
      row.status = .gateRejected ∧ Replaceable db row.id) :
    acceptedOf (db.after st) = acceptedOf db := by
  obtain rfl | ⟨row, rfl⟩ := puts
  · rfl
  · obtain ⟨rejected, free⟩ := audit row rfl
    exact acceptedOf_audit rejected free

theorem acceptedOf_passed {row : ReviewRow} (accepted : row.Accepted) :
    acceptedOf (db.after (some (.putReview row))) =
      Function.update (acceptedOf db) row.id (some row) := by
  funext id
  by_cases mine : id = row.id
  · rw [mine, Function.update_self, acceptedOf_eq_some]
    exact ⟨by simp [Db.after], accepted⟩
  · rw [Function.update_of_ne mine]
    refine acceptedOf_congr fun new _ => ?_
    simp [Db.after, mine]

/-- The UPDATEs of the batches. -/
theorem Touches.revised {written : List Uuid} {st : Option (Stmt σ)} (touch : Touches db written st)
    (plain : ∀ row, st ≠ some (.putReview row)) :
    Revised (acceptedOf db) (acceptedOf (db.after st)) := by
  intro id
  cases held : acceptedOf db id with
  | some row =>
    obtain ⟨found, accepted⟩ := acceptedOf_eq_some.mp held
    obtain ⟨row', found', accepted', same⟩ := touch.keeps id row found accepted
    rw [acceptedOf_eq_some.mpr ⟨found', accepted'⟩]
    exact .some ⟨accepted', same⟩
  | none =>
    have free := touch.replaceable (fun row put => absurd put (plain row))
      (acceptedOf_eq_none.mp held)
    rw [acceptedOf_eq_none.mpr free]
    exact .none

end DostReview.Review
