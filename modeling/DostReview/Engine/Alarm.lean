import Mathlib.Analysis.Complex.ExponentialBounds
import DostReview.Engine.Ledger

/-!
# What a report scores alone

On an account that no review has cleared, a report just counted scores at least what it would
score by itself, whatever else is on the account.
-/
namespace DostReview.Engine

open Risk Rounding

/-! ### The score of a tag alone -/

theorem le_scoreOf {mass : ℝ} {n : ℤ} (h : (n : ℝ) ≤ saturated mass * 10) :
    (n : ℚ) / 10 ≤ scoreOf mass := by
  have rounded : roundEven (n : ℝ) ≤ roundEven (saturated mass * ((10 ^ 1 : ℚ) : ℝ)) :=
    roundEven_mono (by simpa using h)
  rw [roundEven_intCast] at rounded
  have tenths : (n : ℚ) / 10 ^ 1 ≤ scoreOf mass :=
    div_le_div_of_nonneg_right (Int.cast_le.mpr rounded) (by norm_num)
  rwa [pow_one] at tenths

theorem saturated_of_pos {mass : ℝ} (h : 0 ≤ mass) :
    saturated mass = 100 * (1 - Real.exp (-mass / 8)) := by
  simp [saturated, max_eq_right h]

/-- A tag of weight 8 passes `QUEUE_AT` on its own. -/
theorem scoreOf_eight : (632 : ℚ) / 10 ≤ scoreOf 8 := by
  have small := Real.exp_neg_one_lt_d9
  have score : ((632 : ℤ) : ℝ) ≤ saturated 8 * 10 := by
    rw [saturated_of_pos (by norm_num), show (-8 / 8 : ℝ) = -1 by norm_num]
    push_cast
    linarith
  simpa only [Int.cast_ofNat] using le_scoreOf score

/-- A confirmed fraud is critical on its own. -/
theorem scoreOf_fourteen : (826 : ℚ) / 10 ≤ scoreOf 14 := by
  have small := Real.exp_neg_one_lt_d9
  -- the fourth power of the exponential is the seventh of `e⁻¹`
  have power : Real.exp (-14 / 8) ^ 4 = Real.exp (-1) ^ 7 := by
    rw [← Real.exp_nat_mul, ← Real.exp_nat_mul]
    norm_num
  have bound : Real.exp (-14 / 8) ^ 4 ≤ (174 / 1000 : ℝ) ^ 4 := by
    calc Real.exp (-14 / 8) ^ 4 = Real.exp (-1) ^ 7 := power
      _ ≤ 0.3678794412 ^ 7 := pow_le_pow_left₀ (Real.exp_pos _).le small.le 7
      _ ≤ (174 / 1000 : ℝ) ^ 4 := by norm_num
  have least : Real.exp (-14 / 8) ≤ 174 / 1000 :=
    le_of_pow_le_pow_left₀ (by norm_num) (by norm_num) bound
  have score : ((826 : ℤ) : ℝ) ≤ saturated 14 * 10 := by
    rw [saturated_of_pos (by norm_num)]
    push_cast
    linarith
  simpa only [Int.cast_ofNat] using le_scoreOf score

/-! ### Accounts that no review has cleared -/

/-- Nothing on the account counts in its favour. -/
def AccountState.Uncleared (st : AccountState exactOps) : Prop :=
  ∀ e ∈ st.fraudTagStates, e.1 ≠ .clearedByReview ∧ (0 : ℝ) ≤ e.2.w

variable {st : AccountState exactOps} {now : DateTime} {item : SignalItem} {t : FraudTag}

theorem AccountState.Uncleared.empty : (AccountState.empty exactOps).Uncleared := by
  intro e member
  cases member

theorem recencyWeight_pos (age : ℝ) (tag : FraudTag) :
    (0 : ℝ) < recencyWeight exactOps age tag := by
  unfold recencyWeight
  split
  · exact Real.rpow_pos_of_pos (by norm_num) _
  · simp

theorem AccountState.Uncleared.decayed (h : st.Uncleared) (now : DateTime)
    (last : Option DateTime) : (decayed exactOps now last st).Uncleared := by
  intro e member
  have loaded : ∀ e ∈ loadTagStates exactOps st, e.1 ≠ .clearedByReview ∧ (0 : ℝ) ≤ e.2.w :=
    fun e he => h e (List.mem_filter.mp he).1
  cases last with
  | none => exact loaded e member
  | some last =>
    obtain ⟨e', member', rfl⟩ := List.mem_map.mp member
    obtain ⟨other, weight⟩ := loaded e' member'
    exact ⟨other, mul_nonneg weight (recencyWeight_pos _ _).le⟩

/-- The weight a tag has before it is counted once more. -/
theorem AccountState.Uncleared.weight_nonneg (h : st.Uncleared) (t : FraudTag) :
    (0 : ℝ) ≤ ((Dict.get? st.fraudTagStates t).getD ⟨0, exactOps.lit 0⟩).w := by
  cases found : Dict.get? st.fraudTagStates t with
  | none => simp
  | some s => exact (h (t, s) (Dict.mem_of_get? found)).2

theorem AccountState.Uncleared.foldItem (iso : IsoFormat) (h : st.Uncleared)
    (other : item.tag ≠ FraudTag.clearedByReview.name) :
    (foldItem exactOps iso now st item).Uncleared := by
  cases named : FraudTag.ofName item.tag with
  | none => simpa only [Engine.foldItem, named] using h
  | some tag =>
    simp only [Engine.foldItem, named]
    split
    · exact h
    · intro e member
      rcases Dict.mem_set member with rfl | old
      · constructor
        · rintro rfl
          exact other (FraudTag.ofName_eq.mp named)
        · exact add_nonneg (h.weight_nonneg tag) (recencyWeight_pos _ _).le
      · exact h e old

theorem AccountState.Uncleared.foldl (iso : IsoFormat) {items : List SignalItem} (h : st.Uncleared)
    (others : ∀ item ∈ items, item.tag ≠ FraudTag.clearedByReview.name) :
    (items.foldl (Engine.foldItem exactOps iso now) st).Uncleared := by
  induction items generalizing st with
  | nil => exact h
  | cons item items ih =>
    obtain ⟨first, later⟩ := List.forall_mem_cons.mp others
    exact ih (h.foldItem iso first) later

/-- No other tag takes away from the mass of one that weighs at least 1. -/
theorem AccountState.Uncleared.weight_le_mass (h : st.Uncleared) {s : TagState exactOps}
    (found : Dict.get? st.fraudTagStates t = some s) (whole : (1 : ℝ) ≤ s.w) :
    (t.weight : ℝ) ≤ massOf exactOps st.fraudTagStates := by
  have weight : ∀ e ∈ st.fraudTagStates, (0 : ℝ) ≤ e.1.weight := fun e he => by
    exact_mod_cast FraudTag.weight_nonneg (h e he).1
  have terms : ∀ x ∈ st.fraudTagStates.map fun e => (e.1.weight : ℝ) * e.2.w, 0 ≤ x := by
    intro x member
    obtain ⟨e, he, rfl⟩ := List.mem_map.mp member
    exact mul_nonneg (weight e he) (h e he).2
  have member := Dict.mem_of_get? found
  rw [massOf_exact]
  calc (t.weight : ℝ) = t.weight * 1 := (mul_one _).symm
    _ ≤ t.weight * s.w := mul_le_mul_of_nonneg_left whole (weight _ member)
    _ ≤ _ := List.single_le_sum terms _ (List.mem_map_of_mem member)

/-- An undated item counts in full if its conversation has not shown its tag. -/
theorem foldItem_fresh (iso : IsoFormat) (now : DateTime) (h : st.Uncleared)
    (named : FraudTag.ofName item.tag = some t) (fresh : ¬st.Seen (keyOf item) t)
    (undated : item.createdAt = none ∧ item.ts = none) :
    ∃ s, Dict.get? (foldItem exactOps iso now st item).fraudTagStates t = some s ∧
      (1 : ℝ) ≤ s.w := by
  have created : createdOf iso now item = now := by simp [createdOf, undated.1, undated.2]
  have full : recencyWeight exactOps (ageDays exactOps now now) t = (1 : ℝ) := by
    simp [recencyWeight_exact, share, daysBetween_self]
  have unseen : t ∉ (seenEntry exactOps st (item.conversationId.getD "")).tags :=
    not_mem_seenEntry fresh
  simp only [foldItem, named, if_neg unseen, created, bumpTag, Dict.get?_set, if_true,
    Option.some.injEq, exists_eq_left', full]
  linarith [h.weight_nonneg t]

/-- A call with one undated outcome, on an account whose record of the conversation does not show
its tag, answers at least what the tag scores alone. -/
theorem outcome_scores (iso : IsoFormat) {clock : DateTime} {profileId : String}
    {prev : Option (AccountState exactOps)} {out : SignalsOutput (AccountState exactOps)}
    (h : (prev.getD (AccountState.empty exactOps)).Uncleared)
    (named : FraudTag.ofName item.tag = some t) (other : t ≠ .clearedByReview)
    (fresh : ¬(prev.getD (AccountState.empty exactOps)).Seen (keyOf item) t)
    (undated : item.createdAt = none ∧ item.ts = none)
    (answered : (vendored exactOps iso).processSignals clock profileId prev [] [item] = .ok out) :
    scoreOf t.weight ≤ out.riskScore ∧ tierOf out.riskScore = .ok out.riskTier := by
  obtain ⟨out', ok, score, tier, -⟩ := processSignals_answer exactOps iso clock prev [] [item]
  simp only [vendored, ok, Except.ok.injEq] at answered
  subst answered
  refine ⟨?_, tier⟩
  have kept := h.decayed (nowOf iso clock prev)
    ((prev.getD (AccountState.empty exactOps)).lastUpdated.bind (parseIso iso))
  have uncleared : item.tag ≠ FraudTag.clearedByReview.name := by
    intro same
    rw [FraudTag.ofName_eq.mpr same] at named
    exact other (Option.some.inj named).symm
  obtain ⟨s, found, whole⟩ := foldItem_fresh iso (nowOf iso clock prev) kept named fresh undated
  rw [score, riskScore_exact]
  exact scoreOf_mono ((kept.foldItem iso uncleared).weight_le_mass found whole)

end DostReview.Engine
