/-
The shipped twiddle table and the roots of unity it stands for.

The powers of one close approximation of the first root are compared with the words of
the table, so that only that approximation needs an estimate.
-/

import Mathlib.Analysis.Real.Pi.Bounds
import Synesthesia.FusiformGyrus.FftBounds
import Synesthesia.Numeric.Gaussian
import Synesthesia.Numeric.Radix2

namespace Synesthesia.FftAccuracy

open Synesthesia.FftBounds (twiddleRamMif shippedFactor)

/-! ### The root -/

noncomputable def root : ℂ := Complex.exp (-(Real.pi / 64 : ℝ) * Complex.I)

theorem root_pow (n : Nat) :
    root ^ n = Complex.exp (-(n * (Real.pi / 64) : ℝ) * Complex.I) := by
  rw [root, ← Complex.exp_nat_mul]
  congr 1
  push_cast
  ring

theorem norm_root : ‖root‖ = 1 := by
  rw [root, ← Complex.ofReal_neg, Complex.norm_exp_ofReal_mul_I]

theorem root_half : root ^ 64 = -1 := by
  rw [root_pow, show ((64 : Nat) : ℝ) * (Real.pi / 64) = Real.pi by push_cast; ring, neg_mul,
    Complex.exp_neg, Complex.exp_pi_mul_I, inv_neg, inv_one]

theorem root_quarter : root ^ 32 = -Complex.I := by
  rw [root_pow, show ((32 : Nat) : ℝ) * (Real.pi / 64) = Real.pi / 2 by push_cast; ring, neg_mul,
    Complex.exp_neg, Complex.ofReal_div, Complex.ofReal_ofNat, Complex.exp_pi_div_two_mul_I,
    Complex.inv_I]

/-! ### An approximation of the root -/

def scale : Nat := 2 ^ 24

def rootApprox : GaussianInt := ⟨16757007, -823218⟩

theorem root_re : |Real.cos (Real.pi / 64) - 16757007 / 2 ^ 24| ≤ 6 / 10 ^ 7 := by
  have low := Real.pi_gt_d6
  have high := Real.pi_lt_d6
  have small : |Real.pi / 64| ≤ 1 / 20 := by
    rw [abs_of_pos (by positivity)]
    linarith
  have bound := Real.cos_bound (small.trans (by norm_num))
  have power : |Real.pi / 64| ^ 4 ≤ (1 / 20) ^ 4 := pow_le_pow_left₀ (abs_nonneg _) small 4
  have square : (Real.pi / 64) ^ 2 ≤ (3.141593 / 64) ^ 2 :=
    pow_le_pow_left₀ (by positivity) (by linarith) 2
  have square' : (3.141592 / 64) ^ 2 ≤ (Real.pi / 64) ^ 2 :=
    pow_le_pow_left₀ (by norm_num) (by linarith) 2
  rw [abs_le] at bound ⊢
  norm_num at power square square' ⊢
  constructor <;> linarith

theorem root_im : |Real.sin (Real.pi / 64) - 823218 / 2 ^ 24| ≤ 1 / 10 ^ 7 := by
  have low := Real.pi_gt_d6
  have high := Real.pi_lt_d6
  have small : |Real.pi / 64| ≤ 1 / 20 := by
    rw [abs_of_pos (by positivity)]
    linarith
  have bound := Real.sin_bound (small.trans (by norm_num))
  have power : |Real.pi / 64| ^ 5 ≤ (1 / 20) ^ 5 := pow_le_pow_left₀ (abs_nonneg _) small 5
  have cube : (Real.pi / 64) ^ 3 ≤ (3.141593 / 64) ^ 3 :=
    pow_le_pow_left₀ (by positivity) (by linarith) 3
  have cube' : (3.141592 / 64) ^ 3 ≤ (Real.pi / 64) ^ 3 :=
    pow_le_pow_left₀ (by norm_num) (by linarith) 3
  rw [abs_le] at bound ⊢
  norm_num at power cube cube' ⊢
  constructor <;> linarith

theorem root_parts : root.re = Real.cos (Real.pi / 64) ∧ root.im = -Real.sin (Real.pi / 64) := by
  rw [root, ← Complex.ofReal_neg, Complex.exp_ofReal_mul_I_re, Complex.exp_ofReal_mul_I_im,
    Real.cos_neg, Real.sin_neg]
  exact ⟨rfl, rfl⟩

theorem rootApprox_close : ‖(rootApprox : ℂ) / scale - root‖ ≤ 7 / 10 ^ 7 := by
  obtain ⟨re, im⟩ := root_parts
  have real : ((rootApprox : ℂ) / scale - root).re =
      -(Real.cos (Real.pi / 64) - 16757007 / 2 ^ 24) := by
    rw [Complex.sub_re, Complex.div_natCast_re, ← GaussianInt.intCast_re, re, scale, rootApprox]
    push_cast
    ring
  have imaginary : ((rootApprox : ℂ) / scale - root).im =
      Real.sin (Real.pi / 64) - 823218 / 2 ^ 24 := by
    rw [Complex.sub_im, Complex.div_natCast_im, ← GaussianInt.intCast_im, im, scale, rootApprox]
    push_cast
    ring
  calc
    ‖(rootApprox : ℂ) / scale - root‖ ≤ _ := Complex.norm_le_abs_re_add_abs_im _
    _ ≤ 6 / 10 ^ 7 + 1 / 10 ^ 7 := by
      rw [real, imaginary, abs_neg]
      exact add_le_add root_re root_im
    _ = 7 / 10 ^ 7 := by norm_num

theorem rootApprox_norm : ‖(rootApprox : ℂ) / scale‖ ≤ 1 := by
  have bound : ‖(rootApprox : ℂ)‖ ≤ (scale : ℝ) / (1 : Nat) :=
    Gaussian.norm_le Nat.one_pos (by decide)
  rw [norm_div, Complex.norm_natCast]
  rw [Nat.cast_one, div_one] at bound
  exact div_le_one_of_le₀ bound (Nat.cast_nonneg _)

theorem rootApprox_pow_close {k : Nat} (inside : k < 64) :
    ‖((rootApprox : ℂ) / scale) ^ k - root ^ k‖ ≤ 5 / 10 ^ 5 := by
  have count : (k : ℝ) ≤ 64 := by exact_mod_cast inside.le
  calc
    ‖((rootApprox : ℂ) / scale) ^ k - root ^ k‖ ≤ k * ‖(rootApprox : ℂ) / scale - root‖ :=
      Gaussian.norm_pow_sub_pow_le rootApprox_norm norm_root.le k
    _ ≤ 64 * (7 / 10 ^ 7) :=
      mul_le_mul count rootApprox_close (norm_nonneg _) (by norm_num)
    _ ≤ 5 / 10 ^ 5 := by norm_num

/-! ### The words of the table -/

def factorValue (factor : ButterflyWing.Complex 10) : GaussianInt :=
  ⟨factor.real.toInt, factor.im.toInt⟩

def approxPow : Nat → GaussianInt
  | 0 => 1
  | k + 1 => approxPow k * rootApprox

theorem approxPow_eq (k : Nat) : approxPow k = rootApprox ^ k := by
  induction k with
  | zero => rfl
  | succ k ih => rw [approxPow, ih, pow_succ]

/-- The last stage uses every power of the root, and the other stages use the same words.  They
are close to the powers and no longer than one. -/
theorem table_checked :
    (∀ s < 7, ∀ j < 2 ^ s, shippedFactor (BitVec.ofNat 7 (2 ^ s + j)) =
      shippedFactor (BitVec.ofNat 7 (64 + 2 ^ (6 - s) * j))) ∧
    ∀ k < 64,
      (256 * approxPow k - factorValue (shippedFactor (BitVec.ofNat 7 (64 + k))) *
        ((scale ^ k : Nat) : GaussianInt)).norm * 100 ^ 2 ≤ (118 * scale ^ k : Nat) ^ 2 ∧
      (factorValue (shippedFactor (BitVec.ofNat 7 (64 + k)))).norm * 1 ^ 2 ≤ (256 : Nat) ^ 2 := by
  decide +kernel

noncomputable def factorAt (s j : Nat) : ℂ :=
  (factorValue (shippedFactor (BitVec.ofNat 7 (2 ^ s + j))) : ℂ) / 256

/-- How far the factors of a stage are from the roots. -/
noncomputable def twiddleError (s : Nat) : ℝ := if s < 2 then 0 else 3 / 640

theorem twiddleError_nonneg (s : Nat) : 0 ≤ twiddleError s := by
  unfold twiddleError
  split <;> norm_num

theorem place_lt {s j : Nat} (small : s < 7) (inside : j < 2 ^ s) : 2 ^ (6 - s) * j < 64 := by
  calc
    2 ^ (6 - s) * j < 2 ^ (6 - s) * 2 ^ s := Nat.mul_lt_mul_of_pos_left inside (Nat.two_pow_pos _)
    _ = 64 := by rw [← Nat.pow_add, Nat.sub_add_cancel (Nat.le_of_lt_succ small)]

theorem factorAt_norm {s j : Nat} (small : s < 7) (inside : j < 2 ^ s) : ‖factorAt s j‖ ≤ 1 := by
  have bound := Gaussian.norm_le Nat.one_pos (table_checked.2 _ (place_lt small inside)).2
  rw [factorAt, table_checked.1 s small j inside, norm_div]
  rw [Nat.cast_one, div_one] at bound
  refine div_le_one_of_le₀ (bound.trans ?_) (norm_nonneg _)
  norm_num

theorem last_factor_close {k : Nat} (inside : k < 64) :
    ‖(factorValue (shippedFactor (BitVec.ofNat 7 (64 + k))) : ℂ) / 256 - root ^ k‖ ≤ 3 / 640 := by
  have power : (0 : ℝ) < (scale : ℝ) ^ k := by
    unfold scale
    positivity
  have nonzero : ((scale : ℂ) ^ k) ≠ 0 := by
    unfold scale
    exact pow_ne_zero _ (by norm_num)
  have table := Gaussian.norm_le (by decide) (table_checked.2 k inside).1
  have scaled : ‖256 * ((rootApprox : ℂ) / scale) ^ k -
      (factorValue (shippedFactor (BitVec.ofNat 7 (64 + k))) : ℂ)‖ ≤ 118 / 100 := by
    have split : 256 * ((rootApprox : ℂ) / scale) ^ k -
        (factorValue (shippedFactor (BitVec.ofNat 7 (64 + k))) : ℂ) =
          ((256 * approxPow k - factorValue (shippedFactor (BitVec.ofNat 7 (64 + k))) *
            ((scale ^ k : Nat) : GaussianInt) : GaussianInt) : ℂ) / (scale : ℂ) ^ k := by
      rw [approxPow_eq, div_pow, map_sub, map_mul, map_mul, map_pow, map_natCast, map_ofNat,
        Nat.cast_pow, sub_div, mul_div_cancel_right₀ _ nonzero, mul_div_assoc]
    rw [split, norm_div, norm_pow, Complex.norm_natCast, div_le_iff₀ power]
    refine table.trans (le_of_eq ?_)
    push_cast
    ring
  have close := rootApprox_pow_close inside
  have join : (factorValue (shippedFactor (BitVec.ofNat 7 (64 + k))) : ℂ) / 256 - root ^ k =
      (((rootApprox : ℂ) / scale) ^ k - root ^ k) -
        (256 * ((rootApprox : ℂ) / scale) ^ k -
          (factorValue (shippedFactor (BitVec.ofNat 7 (64 + k))) : ℂ)) / 256 := by
    ring
  rw [join]
  refine (norm_sub_le _ _).trans ?_
  rw [norm_div, show ‖(256 : ℂ)‖ = 256 by norm_num]
  linarith

theorem factorAt_close {s j : Nat} (small : s < 7) (inside : j < 2 ^ s) :
    ‖factorAt s j - (root ^ 2 ^ (6 - s)) ^ j‖ ≤ twiddleError s := by
  by_cases early : s < 2
  · have exact_factor : factorAt s j = (root ^ 2 ^ (6 - s)) ^ j := by
      rcases Nat.le_one_iff_eq_zero_or_eq_one.mp (Nat.le_of_lt_succ early) with rfl | rfl
      · rw [Nat.lt_one_iff.mp inside, pow_zero, factorAt]
        rw [show factorValue (shippedFactor (BitVec.ofNat 7 (2 ^ 0 + 0))) = 256 by decide,
          map_ofNat]
        norm_num
      · rcases Nat.le_one_iff_eq_zero_or_eq_one.mp (Nat.le_of_lt_succ inside) with rfl | rfl
        · rw [pow_zero, factorAt]
          rw [show factorValue (shippedFactor (BitVec.ofNat 7 (2 ^ 1 + 0))) = 256 by decide,
            map_ofNat]
          norm_num
        · rw [pow_one, factorAt, show 2 ^ (6 - 1) = 32 from rfl, root_quarter]
          rw [show factorValue (shippedFactor (BitVec.ofNat 7 (2 ^ 1 + 1))) = ⟨0, -256⟩ by decide,
            GaussianInt.toComplex_def']
          push_cast
          ring
    rw [exact_factor, sub_self, norm_zero]
    exact twiddleError_nonneg s
  · rw [twiddleError, if_neg early, factorAt, table_checked.1 s small j inside, ← pow_mul]
    exact last_factor_close (place_lt small inside)

end Synesthesia.FftAccuracy
