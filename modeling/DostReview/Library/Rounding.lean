import Mathlib.Algebra.Order.Floor.Ring
import Mathlib.Tactic.Linarith
import Mathlib.Tactic.Positivity
import Mathlib.Tactic.Ring

/-!
# Rounding half to even

The rounding that IEEE arithmetic and Python's `round` share, over any ordered field with a floor.
-/
namespace Rounding

variable {K : Type} [Field K] [LinearOrder K] [FloorRing K]

/-- The nearest integer, of two the even one. -/
def roundEven (x : K) : ℤ :=
  if x - ⌊x⌋ < 1 / 2 ∨ x - ⌊x⌋ = 1 / 2 ∧ Even ⌊x⌋ then ⌊x⌋ else ⌊x⌋ + 1

theorem floor_le_roundEven (x : K) : ⌊x⌋ ≤ roundEven x := by
  unfold roundEven
  split <;> omega

theorem roundEven_le_floor (x : K) : roundEven x ≤ ⌊x⌋ + 1 := by
  unfold roundEven
  split <;> omega

variable [IsStrictOrderedRing K]

theorem roundEven_intCast (n : ℤ) : roundEven (n : K) = n := by
  simp [roundEven]

theorem roundEven_mono {x y : K} (h : x ≤ y) : roundEven x ≤ roundEven y := by
  rcases (Int.floor_le_floor h).lt_or_eq with below | same
  · exact (roundEven_le_floor x).trans (Int.add_one_le_of_lt below |>.trans (floor_le_roundEven y))
  -- between two integers a larger number is not rounded down if a smaller one is rounded up
  · unfold roundEven
    rw [same]
    split
    · split <;> omega
    next up =>
      have up' : ¬(y - ⌊y⌋ < 1 / 2 ∨ y - ⌊y⌋ = 1 / 2 ∧ Even ⌊y⌋) := by
        rintro (less | ⟨tie, even⟩)
        · exact up (.inl (by linarith))
        · rcases h.lt_or_eq with lt | rfl
          · exact up (.inl (by linarith))
          · exact up (.inr ⟨tie, even⟩)
      rw [if_neg up']

/-- `round(x, n)`, in exact arithmetic. -/
def roundTo (n : ℕ) (x : K) : ℚ := roundEven (x * 10 ^ n) / 10 ^ n

theorem roundTo_mono (n : ℕ) {x y : K} (h : x ≤ y) : roundTo n x ≤ roundTo n y := by
  have ten : (0 : K) ≤ 10 ^ n := by positivity
  have rounded := roundEven_mono (mul_le_mul_of_nonneg_right h ten)
  exact div_le_div_of_nonneg_right (Int.cast_le.mpr rounded) (by positivity)

theorem roundTo_natCast (n m : ℕ) : roundTo n (m : K) = m := by
  have whole : (m : K) * 10 ^ n = ((m * 10 ^ n : ℤ) : K) := by push_cast; ring
  rw [roundTo, whole, roundEven_intCast]
  push_cast
  exact mul_div_cancel_right₀ _ (by positivity)

end Rounding
