/-
The discrete Fourier transform by decimation in time.

A transform of `2 * n` samples is made of the transforms of its even and of its odd
samples.  Carried down to single samples this is the radix-2 algorithm: after `s` of
its stages, block `b` holds the transform of the samples whose index ends in the
bit-reversed `b`.

Nothing here mentions a particular implementation.
-/

import Mathlib.Algebra.BigOperators.Intervals
import Mathlib.Algebra.BigOperators.Ring.Finset
import Mathlib.Algebra.Order.BigOperators.Group.Finset
import Mathlib.Tactic.Ring

namespace Synesthesia.Radix2

open Finset

section Transform

variable {R : Type} [CommRing R]

/-- The transform of the first `n` samples with the root `ω`. -/
def dft (ω : R) (n : Nat) (x : Nat → R) (k : Nat) : R :=
  ∑ m ∈ range n, ω ^ (k * m) * x m

theorem dft_congr (ω : R) {n : Nat} {x y : Nat → R} (same : ∀ m < n, x m = y m) (k : Nat) :
    dft ω n x k = dft ω n y k := by
  unfold dft
  refine sum_congr rfl fun m inside => ?_
  rw [same m (mem_range.mp inside)]

theorem sum_even_odd {M : Type} [AddCommMonoid M] (f : Nat → M) (n : Nat) :
    ∑ m ∈ range (2 * n), f m =
      (∑ m ∈ range n, f (2 * m)) + ∑ m ∈ range n, f (2 * m + 1) := by
  induction n with
  | zero => simp only [Nat.mul_zero, range_zero, sum_empty, add_zero]
  | succ n ih =>
      rw [Nat.mul_succ, sum_range_succ, sum_range_succ, ih, sum_range_succ, sum_range_succ,
        add_add_add_comm, add_assoc, add_assoc]

theorem dft_first (ω : R) (n : Nat) (x : Nat → R) (k : Nat) :
    dft ω (2 * n) x k =
      dft (ω ^ 2) n (fun m => x (2 * m)) k + ω ^ k * dft (ω ^ 2) n (fun m => x (2 * m + 1)) k := by
  unfold dft
  rw [sum_even_odd, mul_sum]
  congr 1
  · refine sum_congr rfl fun m _ => ?_
    rw [← pow_mul, Nat.mul_left_comm]
  · refine sum_congr rfl fun m _ => ?_
    rw [← mul_assoc, ← pow_mul, ← pow_add]
    congr 2
    ring

theorem dft_shift {ω : R} {n : Nat} (root : ω ^ n = 1) (x : Nat → R) (k : Nat) :
    dft ω n x (k + n) = dft ω n x k := by
  unfold dft
  refine sum_congr rfl fun m _ => ?_
  rw [Nat.add_mul, pow_add, pow_mul ω n m, root, one_pow, mul_one]

theorem dft_second {ω : R} {n : Nat} (half : ω ^ n = -1) (x : Nat → R) (k : Nat) :
    dft ω (2 * n) x (k + n) =
      dft (ω ^ 2) n (fun m => x (2 * m)) k - ω ^ k * dft (ω ^ 2) n (fun m => x (2 * m + 1)) k := by
  have root : (ω ^ 2) ^ n = 1 := by
    rw [← pow_mul, Nat.mul_comm, pow_mul, half, neg_one_sq]
  rw [dft_first, dft_shift root, dft_shift root, pow_add, half, mul_neg_one, neg_mul,
    sub_eq_add_neg]

end Transform

/-! ### Bit-reversed blocks -/

/-- The low `width` bits in reversed order. -/
def bitRev : Nat → Nat → Nat
  | 0, _ => 0
  | width + 1, b => bitRev width (b / 2) + 2 ^ width * (b % 2)

theorem bitRev_even (width b : Nat) : bitRev (width + 1) (2 * b) = bitRev width b := by
  rw [bitRev, Nat.mul_div_cancel_left b Nat.two_pos, Nat.mul_mod_right, Nat.mul_zero, Nat.add_zero]

theorem bitRev_odd (width b : Nat) :
    bitRev (width + 1) (2 * b + 1) = bitRev width b + 2 ^ width := by
  rw [bitRev, show (2 * b + 1) / 2 = b by omega, show (2 * b + 1) % 2 = 1 by omega, Nat.mul_one]

section Blocks

variable {R : Type}

/-- The samples of block `b` when `width` stages are still to come. -/
def samples (width : Nat) (x : Nat → R) (b m : Nat) : R := x (bitRev width b + 2 ^ width * m)

theorem samples_even (width : Nat) (x : Nat → R) (b m : Nat) :
    samples width x b (2 * m) = samples (width + 1) x (2 * b) m := by
  rw [samples, samples, bitRev_even, Nat.pow_succ, Nat.mul_assoc]

theorem samples_odd (width : Nat) (x : Nat → R) (b m : Nat) :
    samples width x b (2 * m + 1) = samples (width + 1) x (2 * b + 1) m := by
  rw [samples, samples, bitRev_odd, Nat.pow_succ, Nat.mul_add, Nat.mul_one, Nat.mul_assoc,
    Nat.add_assoc, Nat.add_comm (2 ^ width)]

variable [CommRing R]

/-- Word `j` of block `b` after `s` stages, with `width` stages still to come. -/
def spectrum (ω : R) (width s : Nat) (x : Nat → R) (b j : Nat) : R :=
  dft (ω ^ 2 ^ width) (2 ^ s) (samples width x b) j

theorem spectrum_zero (ω : R) (width : Nat) (x : Nat → R) (b j : Nat) :
    spectrum ω width 0 x b j = x (bitRev width b) := by
  rw [spectrum, dft, Nat.pow_zero, sum_range_one, Nat.mul_zero, pow_zero, one_mul, samples,
    Nat.mul_zero, Nat.add_zero]

/-- After the last stage the only block holds the transform. -/
theorem spectrum_last (ω : R) (s : Nat) (x : Nat → R) (k : Nat) :
    spectrum ω 0 s x 0 k = dft ω (2 ^ s) x k := by
  rw [spectrum, Nat.pow_zero, pow_one]
  refine dft_congr ω (fun m _ => ?_) k
  rw [samples, bitRev, Nat.zero_add, Nat.pow_zero, Nat.one_mul]

theorem root_succ (ω : R) (width : Nat) : (ω ^ 2 ^ width) ^ 2 = ω ^ 2 ^ (width + 1) := by
  rw [← pow_mul, Nat.pow_succ]

theorem spectrum_first (ω : R) (width s : Nat) (x : Nat → R) (b j : Nat) :
    spectrum ω width (s + 1) x b j =
      spectrum ω (width + 1) s x (2 * b) j +
        (ω ^ 2 ^ width) ^ j * spectrum ω (width + 1) s x (2 * b + 1) j := by
  rw [spectrum, Nat.pow_succ, Nat.mul_comm, dft_first, root_succ]
  simp only [samples_even, samples_odd]
  rfl

theorem spectrum_second {ω : R} {width s : Nat} (half : ω ^ 2 ^ (width + s) = -1) (x : Nat → R)
    (b j : Nat) :
    spectrum ω width (s + 1) x b (j + 2 ^ s) =
      spectrum ω (width + 1) s x (2 * b) j -
        (ω ^ 2 ^ width) ^ j * spectrum ω (width + 1) s x (2 * b + 1) j := by
  rw [Nat.pow_add, pow_mul] at half
  rw [spectrum, Nat.pow_succ, Nat.mul_comm, dft_second half, root_succ]
  simp only [samples_even, samples_odd]
  rfl

end Blocks

/-! ### Sizes of blocks -/

/-- The sum of a size over the samples of block `b`. -/
def blockSum (width s : Nat) (size : Nat → Nat) (b : Nat) : Nat :=
  ∑ m ∈ range (2 ^ s), samples width size b m

theorem blockSum_succ (width s : Nat) (size : Nat → Nat) (b : Nat) :
    blockSum width (s + 1) size b =
      blockSum (width + 1) s size (2 * b) + blockSum (width + 1) s size (2 * b + 1) := by
  rw [blockSum, Nat.pow_succ, Nat.mul_comm, sum_even_odd]
  simp only [samples_even, samples_odd]
  rfl

theorem blockSum_last (s : Nat) (size : Nat → Nat) :
    blockSum 0 s size 0 = ∑ m ∈ range (2 ^ s), size m := by
  unfold blockSum
  refine sum_congr rfl fun m _ => ?_
  rw [samples, bitRev, Nat.zero_add, Nat.pow_zero, Nat.one_mul]

end Synesthesia.Radix2
