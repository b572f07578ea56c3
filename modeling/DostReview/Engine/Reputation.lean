import Mathlib.Algebra.Order.Field.Basic
import DostReview.Library.Tally
import DostReview.Review.Isolation

/-!
# `process_reputation`

The review family of the vendored engine, in exact arithmetic over any ordered field. The
model's answers, the power and the rounding are parameters.
-/
namespace DostReview.Engine

open Risk Review

/-! ### Tags -/

def positiveTags : List String :=
  ["#on-time-delivery", "#product-quality", "#hygiene", "#fair-pricing", "#respectful",
    "#reliable", "#honest", "#responsive", "#authentic", "#transparent", "#safe-driving",
    "#clean-vehicle", "#skilled", "#knowledgeable", "#professional", "#punctual", "#accurate",
    "#empathetic", "#effective", "#helpful", "#friendly", "#patient", "#good-packaging",
    "#fresh-food", "#tasty", "#generous-portions", "#good-value", "#fast-service", "#clean-place",
    "#comfortable", "#well-maintained", "#good-communication", "#listens-well", "#problem-solved",
    "#easy-to-use", "#convenient"]

def negativeTags : List String :=
  ["#rude", "#late", "#overpriced", "#unhygienic", "#scam", "#harassment", "#fraud", "#fake",
    "#spammy", "#no-show", "#damaged", "#wrong-order", "#cold-food", "#stale", "#overcharging",
    "#reckless-driving", "#dirty", "#slow", "#unresponsive", "#dishonest", "#misleading",
    "#poor-quality", "#broken", "#missing-items", "#bad-taste", "#too-spicy", "#undercooked",
    "#raw", "#expired"]

def allTags : List String := positiveTags ++ negativeTags

/-- `_plain` -/
def plain (tag : String) : String :=
  match tag.toList with
  | '#' :: rest => String.ofList rest
  | _ => tag

/-- `tag in NEGATIVE_PLAIN` -/
def isNegative (tag : String) : Bool := tag ∈ negativeTags.map plain

theorem allTags_marked : ∀ tag ∈ allTags, tag.toList.head? = some '#' := by decide

/-- Different tags keep different plain names. -/
theorem plain_injective {a b : String} (ha : a ∈ allTags) (hb : b ∈ allTags)
    (same : plain a = plain b) : a = b := by
  have marked := allTags_marked a ha
  have marked' := allTags_marked b hb
  unfold plain at same
  cases la : a.toList with
  | nil => rw [la] at marked; cases marked
  | cons x xs =>
    cases lb : b.toList with
    | nil => rw [lb] at marked'; cases marked'
    | cons y ys =>
      rw [la] at marked same
      rw [lb] at marked' same
      obtain rfl : x = '#' := by simpa using marked
      obtain rfl : y = '#' := by simpa using marked'
      have rest : xs = ys := by simpa using congrArg String.toList same
      rw [← String.toList_inj, la, lb, rest]

/-! ### The state -/

/-- The accumulators of one tag. -/
@[ext] structure TagAccumulators (K : Type) where
  count : ℕ
  intensitySum : K
  w : K
  s : K

/-- `tagStates`, a JSON object: no tag is there twice. -/
structure TagStates (K : Type) where
  entries : Dict String (TagAccumulators K)
  distinct : (entries.map Prod.fst).Nodup

def TagStates.empty (K : Type) : TagStates K := ⟨[], List.nodup_nil⟩

/-- `state` as `process_reputation` writes it, with the keys it does not own. -/
structure ReputationState (K : Type) where
  passthrough : JsonObject
  lastUpdated : Option String
  totalReviews : ℕ
  tagStates : TagStates K

def ReputationState.empty (K : Type) : ReputationState K := ⟨[], none, 0, .empty K⟩

/-- What the model writes about a review: a JSON object, with what `float` makes of its
values. -/
structure Reply (K : Type) where
  entries : Dict String (Option K)
  distinct : (entries.map Prod.fst).Nodup

/-- What the engine is given from elsewhere. -/
structure ReputationOps (K : Type) where
  iso : IsoFormat
  /-- `0.5 ** x` -/
  halfPow : K → K
  /-- `round(x, 1)` -/
  round1 : K → ℚ
  /-- `none` if the call fails or its text is no JSON object -/
  reply : String → Option (Reply K)
  /-- `_generate_summary` -/
  summary : Uuid → String → List (String × ℕ × ℚ) → ℕ → ℚ → String → String

variable {K : Type} [Field K] [LinearOrder K]

/-! ### One call -/

/-- The valid tags of a reply, clamped; a value that is no number fails the whole review. -/
def validScores : Dict String (Option K) → Option (Dict String K)
  | [] => some []
  | (tag, score) :: rest =>
    if tag ∈ allTags then
      score.bind fun x => (validScores rest).map ((tag, max 0 (min 5 x)) :: ·)
    else validScores rest

section

variable (E : ReputationOps K) (now : DateTime)

/-- `_extract_tags_from_review` -/
def extractTags (text : String) : Option (Dict String K) :=
  (E.reply text).bind fun reply => validScores reply.entries

/-- `max(0.0, (now - dt).total_seconds() / 86400.0)` -/
def daysSince (earlier : DateTime) : K :=
  max 0 (((now.instant - earlier.instant : ℤ) : K) / 1000000 / 86400)

/-- `_review_age_days`; the batch engine writes `createdAt` as a UTC time. -/
def reviewAgeDays (createdAt : Time) : K :=
  match parseIso E.iso (E.iso.isoformat ⟨createdAt, 0⟩) with
  | none => 0
  | some dt => daysSince now dt

/-- `_recency_weight` -/
def reviewWeight (age : K) (negative : Bool) : K :=
  if age ≤ 0 then 1 else E.halfPow (age / if negative then 540 else 180)

/-- `_decay_state` -/
def decayState (tags : TagStates K) (age : K) : TagStates K :=
  if age ≤ 0 then tags
  else
    { entries := Dict.mapValues (fun tag st =>
        let f := reviewWeight E age (isNegative tag)
        { st with w := st.w * f, s := st.s * f }) tags.entries
      distinct := by simpa [Dict.mapValues, Function.comp_def] using tags.distinct }

/-- The stored accumulators, aged forward to now. -/
def agedStates (state : ReputationState K) : TagStates K :=
  match state.lastUpdated.bind (parseIso E.iso) with
  | none => state.tagStates
  | some last => decayState E state.tagStates (daysSince now last)

/-- Evidence for a bad tag counts against the score. -/
def adjustedIntensity (tag : String) (intensity : K) : K :=
  if isNegative tag then 5 - intensity else intensity

/-- One tag of one review, which counts once. -/
def foldTag (age : K) (tags : TagStates K) (entry : String × K) : TagStates K :=
  let tag := plain entry.1
  let intensity := entry.2
  let weight := reviewWeight E age (isNegative tag)
  let adjusted := adjustedIntensity tag intensity
  let st := (Dict.get? tags.entries tag).getD ⟨0, 0, 0, 0⟩
  { entries := Dict.set tags.entries tag
      ⟨st.count + 1, st.intensitySum + intensity, st.w + weight, st.s + adjusted * weight⟩
    distinct := Dict.nodup_set tags.distinct _ _ }

/-- One review: a blank one is skipped, one that cannot be read ends the call. -/
def foldReview (acc : ℕ × TagStates K) (review : String × Time) : Option (ℕ × TagStates K) :=
  let text := pyStrip review.1
  if text = "" then some acc
  else
    (extractTags E text).map fun tags =>
      (acc.1 + 1, tags.foldl (foldTag E (reviewAgeDays E now review.2)) acc.2)

/-- The tags by mention count, ties in the order of the dictionary. -/
def rankedTags (tags : TagStates K) : List (String × TagAccumulators K) :=
  (tags.entries.filter fun e => 0 < e.2.count).insertionSort fun a b => b.2.count ≤ a.2.count

/-- `_score_from_top` -/
def scoreFromTop (top : List (String × TagAccumulators K)) : ℚ :=
  let totalW := (top.map (·.2.w)).sum
  -- `PRIOR_SCORE` and `PRIOR_WEIGHT`
  if totalW ≤ 0 then 3
  else
    let totalS := (top.map (·.2.s)).sum
    let raw := totalS / totalW
    E.round1 (max 0 (min 5 ((raw * totalW + 3 * 3) / (totalW + 3))))

/-- `_get_score_tier` -/
def scoreTier (score : ℚ) : String :=
  if 4 ≤ score then "excellent"
  else if 3 ≤ score then "very good"
  else if 2 ≤ score then "average"
  else if 1 ≤ score then "bad"
  else "very bad"

/-- The entry of `topTags` of a tag: its mentions and the average intensity. -/
def topEntry (e : String × TagAccumulators K) : String × ℕ × ℚ :=
  (e.1, e.2.count, E.round1 (e.2.intensitySum / e.2.count))

/-- What is answered once the reviews are folded in. -/
def reputationOutput (input : EngineInput (ReputationState K)) (total : ℕ) (tags : TagStates K) :
    EngineOutput (ReputationState K) :=
  let ranked := rankedTags tags
  let top := ranked.take 5
  let score := scoreFromTop E top
  { reputation := scoreTier score
    reputationScore := score
    totalReviews := total
    allTags := ranked.map fun e => (e.1, (e.2.count : ℚ))
    topTags := (top.map (topEntry E)).map fun (tag, weight, score) => (tag, (weight : ℚ), score)
    summary := some (if top.isEmpty then ""
      else E.summary input.profileId (pyStrip input.about) (top.map (topEntry E)) total score
        (scoreTier score))
    state :=
      { passthrough := (input.state.getD (.empty K)).passthrough
        lastUpdated := some (E.iso.isoformat now)
        totalReviews := total
        tagStates := tags } }

/-- `process_reputation` at an engine clock. -/
def processReputation (input : EngineInput (ReputationState K)) :
    EngineOutcome (ReputationState K) :=
  let state := input.state.getD (.empty K)
  match input.reviews.foldlM (foldReview E now) (state.totalReviews, agedStates E now state) with
  -- `_error_result`: the stored state is left alone
  | none => .error (some true)
  | some (total, tags) => .output (reputationOutput E now input total tags)

end

end DostReview.Engine
