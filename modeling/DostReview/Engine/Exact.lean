import Mathlib.Analysis.SpecialFunctions.Pow.Real
import DostReview.Engine.Incremental
import DostReview.Engine.Repeats
import DostReview.Library.Rounding

/-!
# Exact arithmetic for `process_signals`

The float operations over the real numbers, and the risk score as a function of the weighted
mass of the tags.
-/
namespace DostReview.Engine

open Risk Rounding

/-! ### The operations -/

/-- Exact arithmetic in place of doubles. -/
noncomputable abbrev exactOps : FloatOps where
  Float := ℝ
  lit q := q
  add := (· + ·)
  sub := (· - ·)
  mul := (· * ·)
  div := (· / ·)
  halfPow x := ((1 / 2 : ℚ) : ℝ) ^ x
  exp := Real.exp
  lt x y := decide (x < y)
  isfinite _ := true
  round n x := roundEven (x * ((10 ^ n : ℚ) : ℝ)) / 10 ^ n
  fraction _ := True
  fraction_one := trivial
  fraction_halfPow _ _ _ _ := trivial
  finite_zero := rfl
  finite_mul _ _ _ _ := rfl
  finite_add _ _ _ _ := rfl
  round_clamped x := by
    intro low
    have bound : (if decide (((0 : ℚ) : ℝ) < low) = true then low else ((0 : ℚ) : ℝ)) ≤ 100 := by
      simp only [decide_eq_true_eq, low]
      push_cast
      split_ifs <;> linarith
    have ten : (0 : ℝ) ≤ ((10 ^ 1 : ℚ) : ℝ) := by norm_num
    have rounded := roundEven_mono (mul_le_mul_of_nonneg_right bound ten)
    have top : roundEven ((100 : ℝ) * ((10 ^ 1 : ℚ) : ℝ)) = 1000 := by
      have whole := roundEven_intCast (K := ℝ) 1000
      norm_num at whole ⊢
      exact whole
    rw [top] at rounded
    rw [div_lt_iff₀ (by norm_num)]
    exact lt_of_le_of_lt (Int.cast_le.mpr rounded) (by norm_num)

variable (tags : Dict FraudTag (TagState exactOps))

theorem massOf_exact :
    massOf exactOps tags = (tags.map fun e => (e.1.weight : ℝ) * e.2.w).sum := by
  rw [List.sum_eq_foldl, List.foldl_map, massOf]
  simp only [Rat.cast_zero]

/-- `_risk_score` of a mass, without rounding: 0 for one that is not positive. -/
noncomputable def saturated (mass : ℝ) : ℝ :=
  ((100 : ℚ) : ℝ) * (1 - Real.exp (-max 0 mass / ((8 : ℚ) : ℝ)))

/-- The risk score of a mass of evidence. -/
noncomputable def scoreOf (mass : ℝ) : ℚ := exactOps.round 1 (saturated mass)

theorem saturated_mono {m m' : ℝ} (h : m ≤ m') : saturated m ≤ saturated m' := by
  have least : max 0 m ≤ max 0 m' := max_le_max_left 0 h
  have exps : Real.exp (-max 0 m' / 8) ≤ Real.exp (-max 0 m / 8) :=
    Real.exp_le_exp.mpr (by linarith)
  unfold saturated
  linarith

theorem scoreOf_mono {m m' : ℝ} (h : m ≤ m') : scoreOf m ≤ scoreOf m' := by
  have ten : (0 : ℝ) ≤ ((10 ^ 1 : ℚ) : ℝ) := by norm_num
  have rounded : roundEven (saturated m * ((10 ^ 1 : ℚ) : ℝ)) ≤
      roundEven (saturated m' * ((10 ^ 1 : ℚ) : ℝ)) :=
    roundEven_mono (mul_le_mul_of_nonneg_right (saturated_mono h) ten)
  exact div_le_div_of_nonneg_right (Int.cast_le.mpr rounded) (by norm_num)

theorem saturated_bounds (mass : ℝ) : 0 ≤ saturated mass ∧ saturated mass < 100 := by
  have least : 0 ≤ max 0 mass := le_max_left 0 mass
  have positive := Real.exp_pos (-max 0 mass / 8)
  have small : Real.exp (-max 0 mass / 8) ≤ 1 := Real.exp_le_one_iff.mpr (by linarith)
  unfold saturated
  constructor <;> linarith

theorem scoreOf_zero : scoreOf 0 = 0 := by
  have zero : roundEven (0 : ℝ) = 0 := by simpa using roundEven_intCast (K := ℝ) 0
  simp [scoreOf, saturated, zero]

/-- A score comes in tenths and does not pass 100. -/
theorem scoreOf_tenths (mass : ℝ) :
    ∃ n : ℤ, 0 ≤ n ∧ n ≤ 1000 ∧ scoreOf mass = (n : ℚ) / 10 := by
  obtain ⟨least, most⟩ := saturated_bounds mass
  refine ⟨roundEven (saturated mass * ((10 ^ 1 : ℚ) : ℝ)), ?_, ?_, ?_⟩
  · have zero : roundEven (0 : ℝ) = 0 := by simpa using roundEven_intCast (K := ℝ) 0
    rw [← zero]
    exact roundEven_mono (by positivity)
  · have top : roundEven (1000 : ℝ) = 1000 := by simpa using roundEven_intCast (K := ℝ) 1000
    rw [← top]
    refine roundEven_mono ?_
    push_cast
    linarith
  · rw [scoreOf]
    norm_num

theorem cap_exact (bound x : ℝ) : cap exactOps bound x = min bound x := by
  rcases lt_or_ge x bound with below | above
  · rw [min_eq_right below.le]
    exact if_pos (decide_eq_true below)
  · rw [min_eq_left above]
    exact if_neg (by simpa using above)

theorem floor0_exact (x : ℝ) : floor0 exactOps x = max 0 x := by
  unfold floor0
  simp only [Rat.cast_zero, decide_eq_true_eq]
  rcases lt_or_ge 0 x with positive | not
  · rw [if_pos positive, max_eq_right positive.le]
  · rw [if_neg not.not_gt, max_eq_left not]

/-- With no tenure given, the score is that of the whole mass. -/
theorem riskScore_exact :
    riskScore exactOps tags (exactOps.lit 14) = scoreOf (massOf exactOps tags) := by
  have factor : cap exactOps (exactOps.lit 1)
      (exactOps.div (floor0 exactOps (exactOps.lit 14)) (exactOps.lit 14)) = (1 : ℝ) := by
    simp [cap, floor0]
  unfold riskScore
  simp only [factor]
  generalize massOf exactOps tags = mass
  generalize massOf exactOps _ = outcomeMass
  by_cases positive : (0 : ℝ) < mass
  · -- the factor of a known account leaves the mass as it is
    have effective : (outcomeMass : ℝ) + (mass - outcomeMass) * (((1 / 2 : ℚ) : ℝ) +
        ((1 / 2 : ℚ) : ℝ) * 1) = mass := by
      push_cast
      ring
    have score : (100 : ℚ) * (((1 : ℚ) : ℝ) - Real.exp ((((0 : ℚ) : ℝ) - mass) / (8 : ℚ))) =
        saturated mass := by
      rw [saturated, max_eq_right positive.le]
      push_cast
      rw [zero_sub]
    obtain ⟨least, most⟩ := saturated_bounds mass
    have counts : ¬((true = false) ∨ decide (((0 : ℚ) : ℝ) < mass) = false) := by
      simpa using positive
    rw [if_neg counts]
    change exactOps.round 1 (floor0 exactOps (cap exactOps ((100 : ℚ) : ℝ) ((100 : ℚ) *
      (((1 : ℚ) : ℝ) - Real.exp ((((0 : ℚ) : ℝ) - (outcomeMass + (mass - outcomeMass) *
        (((1 / 2 : ℚ) : ℝ) + ((1 / 2 : ℚ) : ℝ) * 1))) / (8 : ℚ)))))) = _
    rw [effective, score, cap_exact, min_eq_right (by exact_mod_cast most.le), floor0_exact,
      max_eq_right least, scoreOf]
  · have nothing : (true = false) ∨ decide (((0 : ℚ) : ℝ) < mass) = false := by
      simpa using positive
    have none : saturated mass = saturated 0 := by
      rw [saturated, saturated, max_eq_left (not_lt.mp positive), max_self]
    rw [if_pos nothing, scoreOf, none]
    exact scoreOf_zero.symm

end DostReview.Engine
