/-
The transform the engine is meant to compute.

A sequential in-place radix-2 decimation in time on 128 words: the samples are
loaded in bit-reversed order, and stage `s` runs butterflies over pairs that are
`2 ^ s` apart.  The arithmetic is stated on integers and cut to the widths of the
hardware where the hardware cuts it.
-/

import Synesthesia.FusiformGyrus.FgyrusTop
import Synesthesia.Rtl.PairUpdate

namespace Synesthesia.FftReference

open Synesthesia.Rtl
open Synesthesia.ButterflyWing

abbrev Cache := BitVec 7 → Complex 32

/-- The product shifted right by 8 bits and read as a signed 33-bit number. -/
def scaled (value : Int) : Int := (BitVec.ofInt 33 (value >>> (8 : Nat))).toInt

def twiddledReal (sample : Complex 32) (twiddle : Complex 10) : Int :=
  scaled (sample.real.toInt * twiddle.real.toInt - sample.im.toInt * twiddle.im.toInt)

def twiddledIm (sample : Complex 32) (twiddle : Complex 10) : Int :=
  scaled (sample.real.toInt * twiddle.im.toInt + sample.im.toInt * twiddle.real.toInt)

/-- One butterfly, modulo `2 ^ 32` in both parts. -/
def butterfly (twiddle : Complex 10) (a b : Complex 32) : Complex 32 × Complex 32 :=
  ({ real := BitVec.ofInt 32 (a.real.toInt + twiddledReal b twiddle)
     im := BitVec.ofInt 32 (a.im.toInt + twiddledIm b twiddle) },
    { real := BitVec.ofInt 32 (a.real.toInt - twiddledReal b twiddle)
      im := BitVec.ofInt 32 (a.im.toInt - twiddledIm b twiddle) })

/-- The butterfly of stage `s` whose first operand is at `k + j`. -/
def wing (twiddles : BitVec 7 → BitVec 32) (s k j : Nat) : Wing (BitVec 7) (Complex 32) :=
  { first := BitVec.ofNat 7 (k + j)
    second := BitVec.ofNat 7 (k + j + 2 ^ s)
    op := butterfly (FftEngine.twdlFactor (twiddles (BitVec.ofNat 7 (2 ^ s + j)))) }

def load (frame : BitVec 7 → BitVec 32) : Cache :=
  fun index =>
    { real := frame index.reverse
      im := 0 }

/-- Blocks of `2 ^ (s + 1)` words, and in every block the pairs in order. -/
def stage (twiddles : BitVec 7 → BitVec 32) (cache : Cache) (s : Nat) : Cache :=
  (List.range (64 / 2 ^ s)).foldl
    (fun cache block =>
      (List.range (2 ^ s)).foldl
        (fun cache j => Wing.apply cache (wing twiddles s (block * 2 ^ (s + 1)) j)) cache)
    cache

def fft (twiddles : BitVec 7 → BitVec 32) (frame : BitVec 7 → BitVec 32) : Cache :=
  (List.range 7).foldl (stage twiddles) (load frame)

/-! ### The arithmetic of the butterfly wing -/

theorem product_eq (left : BitVec 32) (right : BitVec 10) :
    product left right = BitVec.ofInt 42 (left.toInt * right.toInt) := by
  rw [BitVec.ofInt_mul]
  rfl

theorem mulResNorm_ofInt (value : Int) :
    mulResNorm (BitVec.ofInt 42 value) = BitVec.ofInt 33 (value >>> (8 : Nat)) := by
  apply BitVec.eq_of_toNat_eq
  simp only [mulResNorm, BitVec.sshiftRight, BitVec.toNat_setWidth, BitVec.toNat_ofInt,
    BitVec.toInt_ofInt, Int.shiftRight_eq_div_pow, Int.bmod_def]
  omega

theorem dataSum_eq (sample : BitVec 32) (mulRes : BitVec 33) :
    dataSum sample mulRes = sample + mulRes.setWidth 32 := by
  have cut : ∀ word : BitVec 34, word.extractLsb' 0 32 = word.setWidth 32 := by
    intro word
    apply BitVec.eq_of_getLsbD_eq
    intro i inside
    simp only [BitVec.getLsbD_extractLsb', BitVec.getLsbD_setWidth, Nat.zero_add]
  have low : (sample.signExtend 34).setWidth 32 = sample := by
    apply BitVec.eq_of_getLsbD_eq
    intro i inside
    simp only [BitVec.getLsbD_setWidth, BitVec.getLsbD_signExtend]
    grind
  have high : (BitVec.ofBool (mulRes.getLsbD 32) ++ BitVec.ofBool (mulRes.getLsbD 32) ++
      mulRes.extractLsb' 0 32 : BitVec 34).setWidth 32 = mulRes.setWidth 32 := by
    apply BitVec.eq_of_getLsbD_eq
    intro i inside
    simp only [BitVec.getLsbD_setWidth, BitVec.getLsbD_append, BitVec.getLsbD_extractLsb']
    grind
  rw [dataSum, cut, BitVec.setWidth_add _ _ (by omega), low, high]

theorem setWidth_ofInt_toInt (mulRes : BitVec 33) :
    mulRes.setWidth 32 = BitVec.ofInt 32 mulRes.toInt := by
  rw [← BitVec.signExtend_eq_setWidth_of_le mulRes (by omega)]
  rfl

theorem dataSum_norm (sample : BitVec 32) (value : Int) :
    dataSum sample (mulResNorm (BitVec.ofInt 42 value)) =
      BitVec.ofInt 32 (sample.toInt + scaled value) := by
  rw [dataSum_eq, mulResNorm_ofInt, setWidth_ofInt_toInt, BitVec.ofInt_add, BitVec.ofInt_toInt]
  rfl

theorem dataSum_inv (sample : BitVec 32) (value : Int) :
    dataSum sample (mulResInv (BitVec.ofInt 42 value)) =
      BitVec.ofInt 32 (sample.toInt - scaled value) := by
  have negated : mulResInv (BitVec.ofInt 42 value) = -mulResNorm (BitVec.ofInt 42 value) :=
    (BitVec.neg_eq_not_add _).symm
  rw [dataSum_eq, negated, BitVec.setWidth_neg_of_le (by omega), mulResNorm_ofInt,
    setWidth_ofInt_toInt, Int.sub_eq_add_neg, BitVec.ofInt_add, BitVec.ofInt_neg,
    BitVec.ofInt_toInt]
  rfl

def mulRes (sample : Complex 32) (twiddle : Complex 10) : Complex 42 :=
  { real := product sample.real twiddle.real - product sample.im twiddle.im
    im := product sample.real twiddle.im + product sample.im twiddle.real }

theorem mulRes_eq (sample : Complex 32) (twiddle : Complex 10) :
    mulRes sample twiddle =
      { real := BitVec.ofInt 42
          (sample.real.toInt * twiddle.real.toInt - sample.im.toInt * twiddle.im.toInt)
        im := BitVec.ofInt 42
          (sample.real.toInt * twiddle.im.toInt + sample.im.toInt * twiddle.real.toInt) } := by
  rw [mulRes, product_eq, product_eq, product_eq, product_eq, BitVec.ofInt_add,
    Int.sub_eq_add_neg, BitVec.ofInt_add, BitVec.ofInt_neg, BitVec.sub_eq_add_neg]

/-- The two words a wing returns for the operands it holds. -/
def wingOut (twiddle : Complex 10) (a b : Complex 32) : Complex 32 × Complex 32 :=
  ({ real := dataSum a.real (mulResNorm (mulRes b twiddle).real)
     im := dataSum a.im (mulResNorm (mulRes b twiddle).im) },
    { real := dataSum a.real (mulResInv (mulRes b twiddle).real)
      im := dataSum a.im (mulResInv (mulRes b twiddle).im) })

theorem wingOut_eq (twiddle : Complex 10) (a b : Complex 32) :
    wingOut twiddle a b = butterfly twiddle a b := by
  rw [wingOut, mulRes_eq, dataSum_norm, dataSum_norm, dataSum_inv, dataSum_inv]
  rfl

end Synesthesia.FftReference
