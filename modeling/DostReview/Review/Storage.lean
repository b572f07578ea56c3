import DostReview.Review.Intake
import DostReview.Review.Steps

/-!
# Validated reviews in the review table

What the columns and the constraints of `review` ask of an INSERT, against what the validators
let through. The INSERTs of the gate carry the text of the review, and the accepting one its
media list; neither need be free of what Postgres refuses.
-/
namespace DostReview.Review

variable {σ : Type} {cfg : Config σ} {R : Readers}

/-! ### The columns -/

def ReviewStatus.text : ReviewStatus → String
  | gated => "GATED"
  | gateRejected => "GATE_REJECTED"
  | processing => "PROCESSING"
  | committed => "COMMITTED"
  | failed => "FAILED"

theorem ReviewStatus.text_fits (status : ReviewStatus) : status.text.length ≤ 20 ∧
    status.text ∈ ["GATED", "GATE_REJECTED", "PROCESSING", "COMMITTED", "FAILED"] := by
  cases status <;> decide

theorem GateCode.errorCode_fits (code : GateCode) : code.errorCode.length ≤ 30 := by
  cases code <;> decide

/-- The range of TIMESTAMPTZ, in microseconds from 1970. -/
def timestampMin : Time := -210866803200000000

def timestampEnd : Time := 9224318016000000000

/-- The values of an INSERT satisfy the column types and the CHECK constraints: the weight is a
`DECIMAL(3,2)` of `chk_rater_weight`, the status a `VARCHAR(20)` of `chk_review_status`, the
reason a `VARCHAR(30)`. -/
structure TableTakes (repr : ℚ → String) (row : ReviewRow) : Prop where
  raterWeight : 0 ≤ row.raterWeight ∧ row.raterWeight ≤ 2
  reviewText : noNul row.reviewText
  multimediaJson : ∀ media ∈ row.multimediaJson, JsonbTakes (dumps repr (mediaValue media))
  status : row.status.text.length ≤ 20 ∧
    row.status.text ∈ ["GATED", "GATE_REJECTED", "PROCESSING", "COMMITTED", "FAILED"]
  gateReason : ∀ code ∈ row.gateReason, code.errorCode.length ≤ 30
  createdAt : timestampMin ≤ row.createdAt ∧ row.createdAt < timestampEnd

/-- The row whose values the gate's next statement inserts, if it is an INSERT. -/
def Gate.insertion (g : Gate) (now : Time) : Option ReviewRow :=
  match g.phase with
  | .entry =>
    if g.SelfReview then some (rejectedRow g.review g.eventId .selfReview now) else none
  | .persisting start code => some (rejectedRow g.review g.eventId code start)
  | .inserting start => some (gatedRow g.review g.eventId start)
  | _ => none

/-! ### The two INSERTs -/

theorem Datetime.instant_bounds (d : Datetime) :
    datetimeMin - day ≤ d.instant ∧ d.instant ≤ datetimeMax + day := by
  have zone : -day ≤ d.offset.getD 0 ∧ d.offset.getD 0 ≤ day := by
    cases given : d.offset with
    | none => decide
    | some o => exact ⟨(d.zone o given).1.le, (d.zone o given).2.le⟩
  refine ⟨sub_le_sub d.years.1 zone.2, ?_⟩
  rw [← sub_neg_eq_add]
  exact sub_le_sub d.years.2 zone.1

section

variable {now : Time} {review : DostReview} (validated : Validated R now review)

include validated

theorem Validated.createdAt :
    timestampMin ≤ review.createdAt ∧ review.createdAt < timestampEnd := by
  obtain ⟨d, eq⟩ := validated.dated
  rw [← eq]
  constructor
  · calc timestampMin ≤ datetimeMin - day := by decide
      _ ≤ d.instant := d.instant_bounds.1
  · calc d.instant ≤ datetimeMax + day := d.instant_bounds.2
      _ < timestampEnd := by decide

theorem tableTakes_rejectedRow_iff (eventId : Option Uuid) (code : GateCode) (t : Time) :
    TableTakes R.repr (rejectedRow review eventId code t) ↔ noNul review.reviewText where
  mp taken := taken.reviewText
  mpr text :=
    { raterWeight := ⟨zero_le_one, one_le_two⟩
      reviewText := text
      multimediaJson := nofun
      status := ReviewStatus.text_fits _
      gateReason := fun code _ => code.errorCode_fits
      createdAt := validated.createdAt }

theorem tableTakes_gatedRow_iff (eventId : Option Uuid) (t : Time) :
    TableTakes R.repr (gatedRow review eventId t) ↔
      noNul review.reviewText ∧ ∀ media ∈ review.multimedia, storable (mediaValue media) where
  mp taken := by
    refine ⟨taken.reviewText, fun media given => ?_⟩
    cases media with
    -- an empty list is stored as NULL
    | nil => rfl
    | cons item items =>
      exact (jsonbTakes_dumps_iff _).mp
        (taken.multimediaJson _ (Option.filter_eq_some_iff.mpr ⟨given, rfl⟩))
  mpr safe :=
    { raterWeight := ⟨zero_le_one, one_le_two⟩
      reviewText := safe.1
      multimediaJson := fun media stored =>
        (jsonbTakes_dumps_iff _).mpr (safe.2 media (Option.filter_eq_some_iff.mp stored).1)
      status := ReviewStatus.text_fits _
      gateReason := nofun
      createdAt := validated.createdAt }

end

/-! ### Where a gate inserts -/

/-- Between the self-review check and the end of the transaction. -/
def GatePhase.Past : GatePhase → Prop
  | .beginning _ => True
  | .locking _ _ => True
  | .checking _ _ => True
  | .timing _ => True
  | .counting _ _ => True
  | .persisting _ _ => True
  | .inserting _ => True
  | _ => False

/-- Past its first check the review is no self-review, and it is inserted under a limit that
leaves room. -/
structure Gate.Screened (cfg : Config σ) (g : Gate) : Prop where
  foreign : g.phase.Past → ¬g.SelfReview
  room : ∀ start, g.phase = .inserting start → 0 < cfg.rateLimitPerRaterPerTarget

theorem Gate.Step.screened {v : View σ} {m : Move σ} {st : Option (Stmt σ)} {g : Gate}
    {phase : GatePhase} (step : g.Step cfg v m phase st) (h : g.Screened cfg) :
    (g.enter phase).Screened cfg := by
  have stays : g.phase.Past → ¬(g.enter phase).SelfReview := h.foreign
  cases step with
  | validated answer here foreign => exact ⟨fun _ => foreign, fun _ inserts => by cases inserts⟩
  | begun verdict here | locked verdict start here | timed start here =>
    exact ⟨fun _ => stays (by simp [here, GatePhase.Past]), fun _ inserts => by cases inserts⟩
  | checked verdict start here =>
    refine ⟨fun _ => stays (by simp [here, GatePhase.Past]), fun start' inserts => ?_⟩
    rcases Gate.checked_cases v.db g.review verdict start with eq | ⟨_, eq⟩ | eq <;>
      simp [Gate.enter, eq] at inserts
  | counted start since here =>
    refine ⟨fun _ => stays (by simp [here, GatePhase.Past]), fun start' inserts => ?_⟩
    rcases Gate.counted_cases cfg v.db g.review start since with eq | ⟨room, -⟩
    · simp [Gate.enter, eq] at inserts
    · exact Nat.zero_lt_of_lt room
  | inserted start here free =>
    rcases Gate.inserted_cases v.db g.review g.eventId start with ⟨row, -, eq⟩ | eq <;>
      exact ⟨by simp [Gate.enter, eq, GatePhase.Past], by simp [Gate.enter, eq]⟩
  | crashed | raised | selfReview | persisted | unpersisted | committed | lost =>
    exact ⟨False.elim, fun _ inserts => by cases inserts⟩

theorem State.screened {s : State σ} (reachable : State.Reachable cfg Runs.Anything s) :
    ∀ (i : ℕ) (g : Gate), s.calls[i]? = some (.gate g) → g.Screened cfg := by
  refine Runs.Reachable.invariant (P := fun s => ∀ (i : ℕ) (g : Gate),
    s.calls[i]? = some (.gate g) → g.Screened cfg) (fun s init => ?_)
    (fun s a s' _ h step _ => ?_) reachable
  · simp [init.2]
  intro j g there
  rcases (State.stepped step).gate_cases there with
    old | entry | ⟨m, g₀, phase, st, -, here, gs, rfl⟩
  · exact h j g old
  · exact ⟨by simp [entry, GatePhase.Past], by simp [entry]⟩
  · exact gs.screened (h j g₀ here)

/-! ### The INSERTs of a submission -/

/-- The call is one with this submission. -/
def Gate.Carries (g : Gate) (review : DostReview) (eventId : Option Uuid) : Prop :=
  g.review = review ∧ g.eventId = eventId

/-- No INSERT of the submission is refused, whatever tables it meets. -/
def NoneRefused (cfg : Config σ) (repr : ℚ → String) (review : DostReview)
    (eventId : Option Uuid) : Prop :=
  ∀ s, State.Reachable cfg Runs.Anything s → ∀ (i : ℕ) (g : Gate), s.calls[i]? = some (.gate g) →
    g.Carries review eventId → ∀ row ∈ g.insertion s.now, TableTakes repr row

/-- The text is free of U+0000 and, where the accepting INSERT can be reached, so is the media
list, which has no NaN and no infinity either. -/
def Storable (cfg : Config σ) (review : DostReview) : Prop :=
  noNul review.reviewText ∧
    (review.raterProfileId = review.targetProfileId ∨ cfg.rateLimitPerRaterPerTarget = 0 ∨
      ∀ media ∈ review.multimedia, storable (mediaValue media))

section

variable {now : Time} {review : DostReview} {eventId : Option Uuid}

theorem Storable.noneRefused (h : Storable cfg review) (validated : Validated R now review) :
    NoneRefused cfg R.repr review eventId := by
  rintro s reachable i g here ⟨rfl, rfl⟩ row inserts
  have screened := State.screened reachable i g here
  have rejection (code : GateCode) (t : Time) :
      TableTakes R.repr (rejectedRow g.review g.eventId code t) :=
    (tableTakes_rejectedRow_iff validated g.eventId code t).mpr h.1
  unfold Gate.insertion at inserts
  split at inserts
  · split at inserts
    · cases inserts
      exact rejection _ _
    · cases inserts
  · cases inserts
    exact rejection _ _
  next start at_ =>
    cases inserts
    have foreign : ¬g.SelfReview := screened.foreign (by simp [at_, GatePhase.Past])
    have room := screened.room start at_
    refine (tableTakes_gatedRow_iff validated g.eventId start).mpr ⟨h.1, ?_⟩
    rcases h.2 with selfish | none | media
    · exact absurd selfish foreign
    · exact absurd none room.ne'
    · exact media
  · cases inserts

end

end DostReview.Review
