/-
The magnitude of a bin, as the CORDIC and ABS passes are meant to compute it.

The integer quotient of the parts selects a cosine from the CORDIC RAM, and the
real part is divided by it.  A real part below `2 ^ 16` is scaled up before the
division, any other one after it.
-/

import Synesthesia.FusiformGyrus.DividerRun
import Synesthesia.FusiformGyrus.FgyrusFsm

namespace Synesthesia.Magnitude

open Synesthesia.ButterflyWing (Complex)

def modulus (word : BitVec 32) : Nat := word.abs.toNat

/-- The tangent of the bin, rounded down. -/
def tangent (word : Complex 32) : Nat := modulus word.im / modulus word.real

def cordicIndex (word : Complex 32) : BitVec 8 :=
  if word.real = 0 ∨ 255 < tangent word then 255 else BitVec.ofNat 8 (tangent word)

/-- The cosine of the bin on the scale `2 ^ 16`. -/
def cosine (cordic : BitVec 8 → BitVec 16) (word : Complex 32) : Nat :=
  (cordic (cordicIndex word)).toNat

/-- A quotient on the scale `2 ^ 16`, as far as it fits 32 bits. -/
def scaledQuotient (n d : Nat) : Nat :=
  if n < 2 ^ 16 then n * 2 ^ 16 / d else n / d % 2 ^ 16 * 2 ^ 16

def magnitude (cordic : BitVec 8 → BitVec 16) (word : Complex 32) : Nat :=
  scaledQuotient (modulus word.real) (cosine cordic word)

def shift (code : BitVec 4) : Nat :=
  if code = 1 then 4
  else if code = 2 then 7
  else if code = 3 then 8
  else if code = 4 then 12
  else if code = 5 then 16
  else 0

def result (cordic : BitVec 8 → BitVec 16) (code : BitVec 4) (word : Complex 32) : BitVec 32 :=
  BitVec.ofNat 32 (magnitude cordic word >>> shift code)

theorem modulus_pos {word : BitVec 32} (nonzero : word ≠ 0) : 0 < modulus word := by
  apply Nat.pos_of_ne_zero
  intro zero
  have empty : word.abs = 0 := BitVec.eq_of_toNat_eq zero
  rw [BitVec.abs_eq] at empty
  split at empty
  · exact nonzero (BitVec.neg_eq_zero_iff.mp empty)
  · exact nonzero empty

theorem magnitude_lt (cordic : BitVec 8 → BitVec 16) (word : Complex 32) :
    magnitude cordic word < 2 ^ 32 := by
  rw [magnitude, scaledQuotient]
  split
  · exact Nat.lt_of_le_of_lt (Nat.div_le_self _ _) (by omega)
  · omega

theorem result_toNat (cordic : BitVec 8 → BitVec 16) (code : BitVec 4) (word : Complex 32) :
    (result cordic code word).toNat = magnitude cordic word >>> shift code := by
  have small := magnitude_lt cordic word
  rw [result, BitVec.toNat_ofNat, Nat.mod_eq_of_lt]
  exact Nat.lt_of_le_of_lt (Nat.shiftRight_le _ _) small

theorem magnitude_ones (word : Complex 32) :
    magnitude (fun _ => 1) word = modulus word.real % 2 ^ 16 * 2 ^ 16 := by
  have one : cosine (fun _ => 1) word = 1 := rfl
  rw [magnitude, one, scaledQuotient, Nat.div_one, Nat.div_one]
  split
  · omega
  · rfl

/-! ### Steps of the two passes -/

theorem abs_of_inv (word : BitVec 32) :
    (if word.getLsbD 31 then ~~~word + 1 else word) = word.abs := by
  rw [BitVec.abs_eq, BitVec.neg_eq_not_add, BitVec.msb_eq_getLsbD_last]
  rfl

theorem postNorm_toNat (code : BitVec 4) (word : BitVec 32) :
    (FgyrusFsm.postNorm code word).toNat = word.toNat >>> shift code := by
  rw [FgyrusFsm.postNorm, shift]
  repeat' split
  all_goals first | exact BitVec.toNat_ushiftRight _ _ | rfl

theorem upper_empty (word : BitVec 32) :
    (word.extractLsb' 16 16 == 0) = decide (word.toNat < 2 ^ 16) := by
  have bound := word.isLt
  rw [Bool.eq_iff_iff, beq_iff_eq, decide_eq_true_eq, ← BitVec.toNat_inj, BitVec.extractLsb'_toNat,
    Nat.shiftRight_eq_div_pow, show (0 : BitVec 16).toNat = 0 from rfl]
  omega

theorem lower_up_toNat (word : BitVec 32) :
    (word.extractLsb' 0 16 ++ (0 : BitVec 16)).toNat = word.toNat % 2 ^ 16 * 2 ^ 16 := by
  rw [DividerRad4.toNat_append_add, BitVec.extractLsb'_toNat, Nat.shiftRight_zero,
    show (0 : BitVec 16).toNat = 0 from rfl, Nat.add_zero]

theorem lower_toNat (word : BitVec 16) : ((0 : BitVec 16) ++ word).toNat = word.toNat := by
  rw [DividerRad4.toNat_append_add, show (0 : BitVec 16).toNat = 0 from rfl, Nat.zero_mul,
    Nat.zero_add]

theorem cordicIndex_eq {word : Complex 32} {quotient : BitVec 32}
    (divided : word.real ≠ 0 → quotient.toNat = tangent word) :
    (if (quotient.extractLsb' 8 24 != 0 || word.real == 0) = true then (0xff : BitVec 8)
      else quotient.extractLsb' 0 8) = cordicIndex word := by
  by_cases zero : word.real = 0
  · have flag : (word.real == 0) = true := beq_iff_eq.mpr zero
    rw [flag, Bool.or_true, if_pos rfl, cordicIndex, if_pos (.inl zero)]
  · have value := divided zero
    have high : (quotient.extractLsb' 8 24 != 0) = decide (255 < tangent word) := by
      rw [Bool.eq_iff_iff, bne_iff_ne, decide_eq_true_eq, ne_eq, ← BitVec.toNat_inj,
        BitVec.extractLsb'_toNat, Nat.shiftRight_eq_div_pow, value,
        show (0 : BitVec 24).toNat = 0 from rfl]
      have bound := quotient.isLt
      omega
    rw [cordicIndex, high, beq_eq_false_iff_ne.mpr zero, Bool.or_false]
    by_cases large : 255 < tangent word
    · rw [decide_eq_true large, if_pos rfl, if_pos (.inr large)]
    · have usual : ¬(word.real = 0 ∨ 255 < tangent word) := not_or.mpr ⟨zero, large⟩
      rw [decide_eq_false large, if_neg Bool.false_ne_true, if_neg usual]
      apply BitVec.eq_of_toNat_eq
      rw [BitVec.extractLsb'_toNat, Nat.shiftRight_zero, value, BitVec.toNat_ofNat]

end Synesthesia.Magnitude
