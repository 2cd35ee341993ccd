/-
Gaussian integers as approximations of complex numbers.

Size comparisons between Gaussian integers are comparisons of integer norms, so that
approximations of complex numbers can be checked by computation.

Nothing here mentions a particular implementation.
-/

import Mathlib.Analysis.Complex.Norm
import Mathlib.NumberTheory.Zsqrtd.GaussianInt
import Mathlib.Tactic.Linarith
import Mathlib.Tactic.NormNum
import Mathlib.Tactic.Positivity

namespace Synesthesia.Gaussian

theorem norm_sq (z : GaussianInt) : ‖(z : ℂ)‖ ^ 2 = (z.norm : ℝ) := by
  rw [← Complex.normSq_eq_norm_sq, ← GaussianInt.intCast_real_norm]

theorem norm_le {z : GaussianInt} {bound scale : Nat} (positive : 0 < scale)
    (small : z.norm * scale ^ 2 ≤ bound ^ 2) : ‖(z : ℂ)‖ ≤ bound / scale := by
  have scalePos : (0 : ℝ) < scale := Nat.cast_pos.mpr positive
  have squares : (‖(z : ℂ)‖ * scale) ^ 2 ≤ (bound : ℝ) ^ 2 := by
    rw [mul_pow, norm_sq]
    exact_mod_cast small
  rw [le_div_iff₀ scalePos]
  exact (abs_le_of_sq_le_sq' squares (Nat.cast_nonneg bound)).2

/-- Powers of numbers in the unit disc are no further apart than the exponent allows. -/
theorem norm_pow_sub_pow_le {a b : ℂ} (left : ‖a‖ ≤ 1) (right : ‖b‖ ≤ 1) (n : Nat) :
    ‖a ^ n - b ^ n‖ ≤ n * ‖a - b‖ := by
  induction n with
  | zero => simp only [pow_zero, sub_self, norm_zero, Nat.cast_zero, zero_mul, le_refl]
  | succ n ih =>
      have power : ‖b‖ ^ n ≤ 1 := pow_le_one₀ (norm_nonneg b) right
      have split : a ^ (n + 1) - b ^ (n + 1) = (a ^ n - b ^ n) * a + b ^ n * (a - b) := by
        rw [pow_succ, pow_succ, sub_mul, mul_sub]
        exact (sub_add_sub_cancel _ _ _).symm
      calc
        ‖a ^ (n + 1) - b ^ (n + 1)‖ ≤ ‖a ^ n - b ^ n‖ * ‖a‖ + ‖b‖ ^ n * ‖a - b‖ := by
          rw [split, ← Complex.norm_mul, ← Complex.norm_pow, ← Complex.norm_mul]
          exact norm_add_le _ _
        _ ≤ ‖a ^ n - b ^ n‖ * 1 + 1 * ‖a - b‖ :=
          add_le_add (mul_le_mul_of_nonneg_left left (norm_nonneg _))
            (mul_le_mul_of_nonneg_right power (norm_nonneg _))
        _ ≤ (n + 1 : Nat) * ‖a - b‖ := by
          rw [mul_one, one_mul, Nat.cast_succ, add_mul, one_mul]
          exact add_le_add ih (le_refl _)

/-- Both parts shifted right, rounding towards minus infinity. -/
def shifted (places : Nat) (z : GaussianInt) : GaussianInt := ⟨z.re >>> places, z.im >>> places⟩

theorem shifted_close (places : Nat) (z : GaussianInt) :
    ‖((shifted places z : GaussianInt) : ℂ) - (z : ℂ) / 2 ^ places‖ ≤ Real.sqrt 2 := by
  have part : ∀ n : Int, |((n >>> places : Int) : ℝ) - (n : ℝ) / 2 ^ places| ≤ 1 := by
    intro n
    have positive : (0 : ℝ) < 2 ^ places := pow_pos two_pos _
    have low : (n >>> places) * 2 ^ places ≤ n := by
      rw [Int.shiftRight_eq_div_pow]
      exact Int.ediv_mul_le n (by positivity)
    have high : n < (n >>> places + 1) * 2 ^ places := by
      rw [Int.shiftRight_eq_div_pow]
      exact Int.lt_ediv_add_one_mul_self n (by positivity)
    have lowReal : ((n >>> places : Int) : ℝ) ≤ (n : ℝ) / 2 ^ places := by
      rw [le_div_iff₀ positive]
      exact_mod_cast low
    have highReal : (n : ℝ) / 2 ^ places ≤ ((n >>> places : Int) : ℝ) + 1 := by
      rw [div_le_iff₀ positive]
      exact_mod_cast high.le
    rw [abs_le]
    constructor <;> linarith
  have real := part z.re
  have im := part z.im
  rw [Complex.norm_def]
  apply Real.sqrt_le_sqrt
  have realPart : (((shifted places z : GaussianInt) : ℂ) - (z : ℂ) / 2 ^ places).re =
      ((z.re >>> places : Int) : ℝ) - (z.re : ℝ) / 2 ^ places := by
    have scale : ((2 : ℂ) ^ places) = (((2 : ℝ) ^ places : ℝ) : ℂ) := by
      push_cast
      rfl
    rw [scale, Complex.sub_re, Complex.div_ofReal_re, ← GaussianInt.intCast_re,
      ← GaussianInt.intCast_re]
    rfl
  have imPart : (((shifted places z : GaussianInt) : ℂ) - (z : ℂ) / 2 ^ places).im =
      ((z.im >>> places : Int) : ℝ) - (z.im : ℝ) / 2 ^ places := by
    have scale : ((2 : ℂ) ^ places) = (((2 : ℝ) ^ places : ℝ) : ℂ) := by
      push_cast
      rfl
    rw [scale, Complex.sub_im, Complex.div_ofReal_im, ← GaussianInt.intCast_im,
      ← GaussianInt.intCast_im]
    rfl
  rw [Complex.normSq_apply, realPart, imPart]
  have realSq := sq_le_one_iff_abs_le_one _ |>.mpr real
  have imSq := sq_le_one_iff_abs_le_one _ |>.mpr im
  rw [← sq, ← sq]
  linarith

end Synesthesia.Gaussian
