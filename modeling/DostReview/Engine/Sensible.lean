import Mathlib.Tactic.Linarith
import Mathlib.Tactic.Positivity
import DostReview.Engine.Mentions

/-!
# What the accumulators never leave

The bounds between the accumulators of one tag, and the vocabulary of the stored tags. Every call
of `process_reputation` keeps them, so that its clamps never act and its averages are averages.
-/
namespace DostReview.Engine

open Risk Review

variable {K : Type} [Field K] [LinearOrder K]

/-- What the accumulators of a tag that has been mentioned are to each other. -/
structure TagAccumulators.Sensible (a : TagAccumulators K) : Prop where
  counted : 0 < a.count
  intensity : 0 ≤ a.intensitySum ∧ a.intensitySum ≤ 5 * a.count
  weight : 0 ≤ a.w ∧ a.w ≤ a.count
  evidence : 0 ≤ a.s ∧ a.s ≤ 5 * a.w

/-- Tags of the vocabulary with sensible accumulators. -/
def SensibleTags (d : Dict String (TagAccumulators K)) : Prop :=
  ∀ e ∈ d, e.1 ∈ allTags.map plain ∧ e.2.Sensible

/-- A state in which moreover no tag has been mentioned more often than there were reviews. -/
structure ReputationState.Sensible (st : ReputationState K) : Prop where
  tags : SensibleTags st.tagStates.entries
  counts : ∀ e ∈ st.tagStates.entries, e.2.count ≤ st.totalReviews

theorem ReputationState.Sensible.empty : (ReputationState.empty K).Sensible where
  tags e member := by cases member
  counts e member := by cases member

variable [IsStrictOrderedRing K]

/-! ### One review -/

theorem TagAccumulators.Sensible.add {a b : TagAccumulators K} (ha : a.Sensible) (hb : b.Sensible) :
    (a + b).Sensible where
  counted := Nat.add_pos_left ha.counted b.count
  intensity := by
    change 0 ≤ a.intensitySum + b.intensitySum ∧
      a.intensitySum + b.intensitySum ≤ 5 * ((a.count + b.count : ℕ) : K)
    push_cast
    constructor <;> linarith [ha.intensity, hb.intensity]
  weight := by
    change 0 ≤ a.w + b.w ∧ a.w + b.w ≤ ((a.count + b.count : ℕ) : K)
    push_cast
    constructor <;> linarith [ha.weight, hb.weight]
  evidence := by
    change 0 ≤ a.s + b.s ∧ a.s + b.s ≤ 5 * (a.w + b.w)
    constructor <;> linarith [ha.evidence, hb.evidence]

variable {E : ReputationOps K} {now : DateTime}

theorem SensibleTags.add {d : Dict String (TagAccumulators K)} (h : SensibleTags d)
    {e : String × TagAccumulators K} (known : e.1 ∈ allTags.map plain) (sensible : e.2.Sensible) :
    SensibleTags (Tally.add d e) := by
  intro x member
  rcases Dict.mem_set member with rfl | old
  · refine ⟨known, ?_⟩
    cases found : Dict.get? d e.1 with
    | none => simpa using sensible
    | some a => exact (h (e.1, a) (Dict.mem_of_get? found)).2.add sensible
  · exact h x old

end DostReview.Engine
