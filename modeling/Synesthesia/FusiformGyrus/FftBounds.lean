/-
Growth of the words in the FFT cache.

A twiddle factor of the shipped table has `|real| + |im| ≤ 362` on the scale 256,
so one stage multiplies a bound on the words by less than `1 + 362 / 256`, and
the arithmetic shift adds less than one.  Seven stages stay far below the widths
at which the butterfly cuts.
-/

import Synesthesia.FusiformGyrus.FftFrame

namespace Synesthesia.FftBounds

open Synesthesia.Rtl
open Synesthesia.ButterflyWing
open Synesthesia.FftReference (Cache mulRes scaled)
open Synesthesia.FftSchedule

/-! ### The shipped twiddle table -/

def twiddleWords : List (BitVec 32) :=
  [ 0x01000000, 0x01000000, 0x01000000, 0x0000ff00, 0x01000000, 0x00b5ff4b, 0x0000ff00, 0xff4bff4b,
    0x01000000, 0x00ecff9f, 0x00b5ff4b, 0x0061ff14, 0x0000ff00, 0xff9fff14, 0xff4bff4b, 0xff14ff9f,
    0x01000000, 0x00fbffcf, 0x00ecff9f, 0x00d4ff72, 0x00b5ff4b, 0x008eff2c, 0x0061ff14, 0x0031ff05,
    0x0000ff00, 0xffcfff05, 0xff9fff14, 0xff72ff2c, 0xff4bff4b, 0xff2cff72, 0xff14ff9f, 0xff05ffcf,
    0x01000000, 0x00feffe7, 0x00fbffcf, 0x00f4ffb6, 0x00ecff9f, 0x00e1ff88, 0x00d4ff72, 0x00c5ff5e,
    0x00b5ff4b, 0x00a2ff3b, 0x008eff2c, 0x0078ff1f, 0x0061ff14, 0x004aff0c, 0x0031ff05, 0x0019ff02,
    0x0000ff00, 0xffe7ff02, 0xffcfff05, 0xffb6ff0c, 0xff9fff14, 0xff88ff1f, 0xff72ff2c, 0xff5eff3b,
    0xff4bff4b, 0xff3bff5e, 0xff2cff72, 0xff1fff88, 0xff14ff9f, 0xff0cffb6, 0xff05ffcf, 0xff02ffe7,
    0x01000000, 0x00fffff4, 0x00feffe7, 0x00fdffdb, 0x00fbffcf, 0x00f8ffc2, 0x00f4ffb6, 0x00f1ffaa,
    0x00ecff9f, 0x00e7ff93, 0x00e1ff88, 0x00dbff7d, 0x00d4ff72, 0x00cdff68, 0x00c5ff5e, 0x00bdff55,
    0x00b5ff4b, 0x00abff43, 0x00a2ff3b, 0x0098ff33, 0x008eff2c, 0x0083ff25, 0x0078ff1f, 0x006dff19,
    0x0061ff14, 0x0056ff0f, 0x004aff0c, 0x003eff08, 0x0031ff05, 0x0025ff03, 0x0019ff02, 0x000cff01,
    0x0000ff00, 0xfff4ff01, 0xffe7ff02, 0xffdbff03, 0xffcfff05, 0xffc2ff08, 0xffb6ff0c, 0xffaaff0f,
    0xff9fff14, 0xff93ff19, 0xff88ff1f, 0xff7dff25, 0xff72ff2c, 0xff68ff33, 0xff5eff3b, 0xff55ff43,
    0xff4bff4b, 0xff43ff55, 0xff3bff5e, 0xff33ff68, 0xff2cff72, 0xff25ff7d, 0xff1fff88, 0xff19ff93,
    0xff14ff9f, 0xff0fffaa, 0xff0cffb6, 0xff08ffc2, 0xff05ffcf, 0xff03ffdb, 0xff02ffe7, 0xff01fff4 ]

def twiddleRamMif (address : BitVec 7) : BitVec 32 := twiddleWords.getD address.toNat 0

/-- The ten-bit factor at an address of the table. -/
def shippedFactor (address : BitVec 7) : Complex 10 :=
  FftEngine.twdlFactor (twiddleRamMif address)

/-- Factors have at most this sum of magnitudes, where 256 stands for one. -/
def factorSum : Nat := 362

theorem shippedFactor_small (address : BitVec 7) :
    (shippedFactor address).real.toInt.natAbs + (shippedFactor address).im.toInt.natAbs ≤
      factorSum := by
  have table : ∀ k < 128,
      (FftEngine.twdlFactor (twiddleWords.getD k 0)).real.toInt.natAbs +
        (FftEngine.twdlFactor (twiddleWords.getD k 0)).im.toInt.natAbs ≤ factorSum := by
    decide +kernel
  exact table address.toNat address.isLt

/-! ### One butterfly -/

def Bounded (bound : Nat) (word : Complex 32) : Prop :=
  word.real.toInt.natAbs ≤ bound ∧ word.im.toInt.natAbs ≤ bound

def growth (bound : Nat) : Nat := bound + (factorSum * bound / 256 + 1)

/-- A bound small enough for every cut of the butterfly. -/
def roomy : Nat := 2 ^ 29

theorem toInt_ofInt_small {width : Nat} {value : Int} (positive : 0 < width)
    (small : value.natAbs < 2 ^ (width - 1)) : (BitVec.ofInt width value).toInt = value := by
  have power : ((2 ^ (width - 1) : Nat) : Int) = (2 : Int) ^ (width - 1) := by
    simp
  apply BitVec.toInt_ofInt_eq_self positive <;> omega

theorem products_small {bound : Nat} {left right : Int} {factor : Complex 10}
    (small : factor.real.toInt.natAbs + factor.im.toInt.natAbs ≤ factorSum)
    (leftSmall : left.natAbs ≤ bound) (rightSmall : right.natAbs ≤ bound) :
    (left * factor.real.toInt).natAbs + (right * factor.im.toInt).natAbs ≤
      factorSum * bound := by
  rw [Int.natAbs_mul, Int.natAbs_mul]
  calc left.natAbs * factor.real.toInt.natAbs + right.natAbs * factor.im.toInt.natAbs
      ≤ bound * factor.real.toInt.natAbs + bound * factor.im.toInt.natAbs :=
        Nat.add_le_add (Nat.mul_le_mul_right _ leftSmall) (Nat.mul_le_mul_right _ rightSmall)
    _ = bound * (factor.real.toInt.natAbs + factor.im.toInt.natAbs) := (Nat.mul_add _ _ _).symm
    _ ≤ bound * factorSum := Nat.mul_le_mul_left _ small
    _ = factorSum * bound := Nat.mul_comm _ _

theorem shifted_small {value : Int} {bound : Nat} (small : value.natAbs ≤ factorSum * bound) :
    (value >>> (8 : Nat)).natAbs ≤ factorSum * bound / 256 + 1 := by
  rw [Int.shiftRight_eq_div_pow]
  omega

/-- The cut products and sums of the wing are the exact integers. -/
structure Exact (factor : Complex 10) (a b : Complex 32) : Prop where
  normReal : (mulResNorm (mulRes b factor).real).toInt =
    (b.real.toInt * factor.real.toInt - b.im.toInt * factor.im.toInt) >>> (8 : Nat)
  normIm : (mulResNorm (mulRes b factor).im).toInt =
    (b.real.toInt * factor.im.toInt + b.im.toInt * factor.real.toInt) >>> (8 : Nat)
  invReal : (mulResInv (mulRes b factor).real).toInt =
    -((b.real.toInt * factor.real.toInt - b.im.toInt * factor.im.toInt) >>> (8 : Nat))
  invIm : (mulResInv (mulRes b factor).im).toInt =
    -((b.real.toInt * factor.im.toInt + b.im.toInt * factor.real.toInt) >>> (8 : Nat))
  sumReal : (dataSum a.real (mulResNorm (mulRes b factor).real)).toInt =
    a.real.toInt +
      (b.real.toInt * factor.real.toInt - b.im.toInt * factor.im.toInt) >>> (8 : Nat)
  sumIm : (dataSum a.im (mulResNorm (mulRes b factor).im)).toInt =
    a.im.toInt +
      (b.real.toInt * factor.im.toInt + b.im.toInt * factor.real.toInt) >>> (8 : Nat)
  differenceReal : (dataSum a.real (mulResInv (mulRes b factor).real)).toInt =
    a.real.toInt -
      (b.real.toInt * factor.real.toInt - b.im.toInt * factor.im.toInt) >>> (8 : Nat)
  differenceIm : (dataSum a.im (mulResInv (mulRes b factor).im)).toInt =
    a.im.toInt -
      (b.real.toInt * factor.im.toInt + b.im.toInt * factor.real.toInt) >>> (8 : Nat)

section Wing

variable {value : Int} {sample : BitVec 32} {bound : Nat}

theorem mulResNorm_exact (small : value.natAbs ≤ factorSum * bound) (room : bound ≤ roomy) :
    (mulResNorm (BitVec.ofInt 42 value)).toInt = value >>> (8 : Nat) := by
  have shifted := shifted_small small
  rw [FftReference.mulResNorm_ofInt]
  refine toInt_ofInt_small (by decide) ?_
  simp only [factorSum, roomy] at *
  omega

theorem scaled_exact (small : value.natAbs ≤ factorSum * bound) (room : bound ≤ roomy) :
    scaled value = value >>> (8 : Nat) := by
  rw [scaled, ← FftReference.mulResNorm_ofInt]
  exact mulResNorm_exact small room

theorem mulResInv_exact (small : value.natAbs ≤ factorSum * bound) (room : bound ≤ roomy) :
    (mulResInv (BitVec.ofInt 42 value)).toInt = -(value >>> (8 : Nat)) := by
  have shifted := shifted_small small
  have negated : mulResInv (BitVec.ofInt 42 value) =
      BitVec.ofInt 33 (-(value >>> (8 : Nat))) := by
    rw [BitVec.ofInt_neg, ← FftReference.mulResNorm_ofInt]
    exact (BitVec.neg_eq_not_add _).symm
  rw [negated]
  refine toInt_ofInt_small (by decide) ?_
  rw [Int.natAbs_neg]
  simp only [factorSum, roomy] at *
  omega

theorem dataSum_exact (small : value.natAbs ≤ factorSum * bound) (room : growth bound ≤ roomy)
    (sampleSmall : sample.toInt.natAbs ≤ bound) :
    ((dataSum sample (mulResNorm (BitVec.ofInt 42 value))).toInt =
        sample.toInt + value >>> (8 : Nat) ∧
      (dataSum sample (mulResInv (BitVec.ofInt 42 value))).toInt =
        sample.toInt - value >>> (8 : Nat)) ∧
      (sample.toInt + value >>> (8 : Nat)).natAbs ≤ growth bound ∧
      (sample.toInt - value >>> (8 : Nat)).natAbs ≤ growth bound := by
  have shifted := shifted_small small
  have before : bound ≤ roomy := by
    rw [growth] at room
    omega
  have sum : (sample.toInt + value >>> (8 : Nat)).natAbs ≤ growth bound := by
    rw [growth]
    omega
  have difference : (sample.toInt - value >>> (8 : Nat)).natAbs ≤ growth bound := by
    rw [growth]
    omega
  have width : roomy < 2 ^ (32 - 1) := by
    decide
  refine ⟨⟨?_, ?_⟩, sum, difference⟩
  · rw [FftReference.dataSum_norm, scaled_exact small before]
    exact toInt_ofInt_small (by decide) (by omega)
  · rw [FftReference.dataSum_inv, scaled_exact small before]
    exact toInt_ofInt_small (by decide) (by omega)

end Wing

/-- A butterfly on bounded words with a small factor is exact, and its results
are bounded in turn. -/
theorem butterfly_exact {factor : Complex 10} {a b : Complex 32} {bound : Nat}
    (small : factor.real.toInt.natAbs + factor.im.toInt.natAbs ≤ factorSum)
    (room : growth bound ≤ roomy) (first : Bounded bound a) (second : Bounded bound b) :
    Exact factor a b ∧ Bounded (growth bound) (FftReference.butterfly factor a b).1 ∧
      Bounded (growth bound) (FftReference.butterfly factor a b).2 := by
  have before : bound ≤ roomy := by
    rw [growth] at room
    omega
  have realSmall :
      (b.real.toInt * factor.real.toInt - b.im.toInt * factor.im.toInt).natAbs ≤
        factorSum * bound := by
    have products := products_small small second.1 second.2
    omega
  have imSmall :
      (b.real.toInt * factor.im.toInt + b.im.toInt * factor.real.toInt).natAbs ≤
        factorSum * bound := by
    have products := products_small small second.2 second.1
    omega
  obtain ⟨⟨sumReal, differenceReal⟩, sumRealSmall, differenceRealSmall⟩ :=
    dataSum_exact realSmall room first.1
  obtain ⟨⟨sumIm, differenceIm⟩, sumImSmall, differenceImSmall⟩ :=
    dataSum_exact imSmall room first.2
  have real : (mulRes b factor).real = BitVec.ofInt 42
      (b.real.toInt * factor.real.toInt - b.im.toInt * factor.im.toInt) :=
    congrArg ButterflyWing.Complex.real (FftReference.mulRes_eq b factor)
  have im : (mulRes b factor).im = BitVec.ofInt 42
      (b.real.toInt * factor.im.toInt + b.im.toInt * factor.real.toInt) :=
    congrArg ButterflyWing.Complex.im (FftReference.mulRes_eq b factor)
  have exactWing : Exact factor a b :=
    { normReal := by rw [real, mulResNorm_exact realSmall before]
      normIm := by rw [im, mulResNorm_exact imSmall before]
      invReal := by rw [real, mulResInv_exact realSmall before]
      invIm := by rw [im, mulResInv_exact imSmall before]
      sumReal := by rw [real, sumReal]
      sumIm := by rw [im, sumIm]
      differenceReal := by rw [real, differenceReal]
      differenceIm := by rw [im, differenceIm] }
  rw [← FftReference.wingOut_eq]
  refine ⟨exactWing, ⟨?_, ?_⟩, ?_, ?_⟩
  · exact exactWing.sumReal ▸ sumRealSmall
  · exact exactWing.sumIm ▸ sumImSmall
  · exact exactWing.differenceReal ▸ differenceRealSmall
  · exact exactWing.differenceIm ▸ differenceImSmall

/-! ### The stages -/

def boundAt : Nat → Nat
  | 0 => 32768
  | s + 1 => growth (boundAt s)

theorem boundAt_succ (s : Nat) : boundAt (s + 1) = growth (boundAt s) := rfl

theorem boundAt_mono (s : Nat) : boundAt s ≤ boundAt (s + 1) := by
  rw [boundAt_succ, growth]
  omega

theorem boundAt_small : ∀ s ≤ 7, boundAt s < 2 ^ 25 := by
  decide

theorem Bounded.weaken {bound larger : Nat} {word : Complex 32} (bounded : Bounded bound word)
    (upto : bound ≤ larger) : Bounded larger word :=
  ⟨Nat.le_trans bounded.1 upto, Nat.le_trans bounded.2 upto⟩

/-- The butterflies of stage `s` in the order of the sequencer. -/
def stageWings (twiddles : BitVec 7 → BitVec 32) (s : Nat) : List (Wing (BitVec 7) (Complex 32)) :=
  (List.range 64).map fun r => wingAt twiddles (64 * s + r)

theorem stageWings_apart (twiddles : BitVec 7 → BitVec 32) {s : Nat} (small : s < 7) :
    (stageWings twiddles s).Pairwise Wing.Apart := by
  have place : ∀ r < 64,
      (block (64 * s + r) * 2 ^ (s + 1), offset (64 * s + r)) ∈ stagePairs s := by
    intro r inside
    exact (sequencer_perm s small).mem_iff.mp
      (List.mem_map.mpr ⟨r, List.mem_range.mpr inside, rfl⟩)
  rw [stageWings, List.pairwise_map]
  refine List.Pairwise.imp_of_mem ?_ List.pairwise_lt_range
  intro left right leftIn rightIn order
  rw [List.mem_range] at leftIn rightIn
  have wings : ∀ r < 64, wingAt twiddles (64 * s + r) =
      wingOfPair twiddles s (block (64 * s + r) * 2 ^ (s + 1), offset (64 * s + r)) := by
    intro r inside
    rw [wingAt, stageNo_mul_add inside]
    rfl
  rw [wings left leftIn, wings right rightIn]
  refine (stagePairs_apart twiddles small _ (place left leftIn) _
    (place right rightIn)).resolve_left
    fun same => ?_
  obtain ⟨sameBlock, sameOffset⟩ := Prod.mk.inj same
  have position : ∀ r < 64, r = 2 ^ (6 - s) * offset (64 * s + r) + block (64 * s + r) := by
    intro r inside
    rw [offset, block, stageNo_mul_add inside, show (64 * s + r) % 64 = r by omega]
    exact (Nat.div_add_mod _ _).symm
  have equal : block (64 * s + left) = block (64 * s + right) :=
    Nat.eq_of_mul_eq_mul_right (Nat.two_pow_pos _) sameBlock
  have := position left leftIn
  have := position right rightIn
  rw [equal, sameOffset] at *
  omega

/-- In stage `s` every word keeps the bound of the next stage, and the operands
of the next butterfly still have the bound of this one. -/
theorem stage_bounded {start : Cache} {s r : Nat} (small : s < 7) (inside : r ≤ 64)
    (bounded : ∀ address, Bounded (boundAt s) (wingsRun twiddleRamMif start (64 * s) address)) :
    (∀ address,
      Bounded (boundAt (s + 1)) (wingsRun twiddleRamMif start (64 * s + r) address)) ∧
    (r < 64 →
      let wing := wingAt twiddleRamMif (64 * s + r)
      Bounded (boundAt s) (wingsRun twiddleRamMif start (64 * s + r) wing.first) ∧
        Bounded (boundAt s) (wingsRun twiddleRamMif start (64 * s + r) wing.second)) := by
  have room : growth (boundAt s) ≤ roomy := by
    have := boundAt_small (s + 1) small
    rw [← boundAt_succ, roomy]
    omega
  obtain ⟨words, operands⟩ := Wing.foldl_weakens (Bounded (boundAt s))
    (Bounded (boundAt (s + 1))) (stageWings twiddleRamMif s) (stageWings_apart twiddleRamMif small)
    (by
      intro wing member left right leftBounded rightBounded
      obtain ⟨k, _, rfl⟩ := List.mem_map.mp member
      rw [boundAt_succ]
      exact (butterfly_exact (shippedFactor_small _) room leftBounded rightBounded).2)
    _ (fun address => (bounded address).weaken (boundAt_mono s))
    (fun wing _ => ⟨bounded _, bounded _⟩) r
  have taken : (stageWings twiddleRamMif s).take r =
      (List.range r).map fun k => wingAt twiddleRamMif (64 * s + k) := by
    rw [stageWings, ← List.map_take, List.take_range, Nat.min_eq_left inside]
  rw [taken, ← wingsRun_add] at words operands
  refine ⟨words, fun early => operands _ ?_⟩
  rw [stageWings, List.mem_drop_iff_getElem]
  refine ⟨0, ?_, ?_⟩
  · rw [List.length_map, List.length_range]
    omega
  · rw [List.getElem_map, List.getElem_range]
    rfl

theorem stages_bounded {start : Cache} (bounded : ∀ address, Bounded 32768 (start address)) :
    ∀ s ≤ 7, ∀ address,
      Bounded (boundAt s) (wingsRun twiddleRamMif start (64 * s) address) := by
  intro s
  induction s with
  | zero => exact fun _ => bounded
  | succ s ih =>
      intro inside
      rw [Nat.mul_succ]
      exact (stage_bounded (by omega) (Nat.le_refl 64) (ih (by omega))).1

/-! ### 16-bit audio -/

/-- The cache after the first `n` butterflies of a frame of 16-bit samples. -/
def cacheAfter (samples : BitVec 7 → BitVec 16) (n : Nat) : Cache :=
  wingsRun twiddleRamMif (FftReference.load fun index => (samples index).signExtend 32) n

theorem load_bounded (samples : BitVec 7 → BitVec 16) (address : BitVec 7) :
    Bounded 32768 (FftReference.load (fun index => (samples index).signExtend 32) address) := by
  constructor
  · change ((samples address.reverse).signExtend 32).toInt.natAbs ≤ 32768
    rw [BitVec.toInt_signExtend_of_le (by decide)]
    have low := BitVec.le_toInt (samples address.reverse)
    have high := BitVec.toInt_lt (x := samples address.reverse)
    simp only [Int.reducePow, Nat.reduceSub] at low high
    omega
  · exact Nat.zero_le _

theorem cacheAfter_exact (samples : BitVec 7 → BitVec 16) {n : Nat} (inside : n < wings) :
    Exact (shippedFactor (BitVec.ofNat 7 (2 ^ stageNo n + offset n)))
      (cacheAfter samples n (wingAt twiddleRamMif n).first)
      (cacheAfter samples n (wingAt twiddleRamMif n).second) := by
  have stages := stages_bounded (load_bounded samples)
  rw [wings] at inside
  obtain ⟨_, operands⟩ := stage_bounded (s := n / 64) (r := n % 64) (by omega) (by omega)
    (stages (n / 64) (by omega))
  rw [Nat.div_add_mod] at operands
  obtain ⟨first, second⟩ := operands (by omega)
  have room : growth (boundAt (n / 64)) ≤ roomy := by
    have := boundAt_small (n / 64 + 1) (by omega)
    rw [← boundAt_succ, roomy]
    omega
  exact (butterfly_exact (shippedFactor_small _) room first second).1

theorem cacheAfter_small (samples : BitVec 7 → BitVec 16) {n : Nat} (inside : n ≤ wings)
    (address : BitVec 7) :
    (cacheAfter samples n address).real.toInt.natAbs < 2 ^ 25 ∧
      (cacheAfter samples n address).im.toInt.natAbs < 2 ^ 25 := by
  have stages := stages_bounded (load_bounded samples)
  rw [wings] at inside
  have below : ∀ {s : Nat}, s ≤ 7 → Bounded (boundAt s) (cacheAfter samples n address) →
      (cacheAfter samples n address).real.toInt.natAbs < 2 ^ 25 ∧
        (cacheAfter samples n address).im.toInt.natAbs < 2 ^ 25 := by
    intro s small bounded
    have limit := boundAt_small s small
    exact ⟨Nat.lt_of_le_of_lt bounded.1 limit, Nat.lt_of_le_of_lt bounded.2 limit⟩
  rcases Nat.lt_or_ge n 448 with early | last
  · have words := (stage_bounded (s := n / 64) (r := n % 64) (by omega) (by omega)
      (stages (n / 64) (by omega))).1 address
    rw [Nat.div_add_mod] at words
    exact below (by omega) words
  · rw [show n = 64 * 7 by omega] at below ⊢
    exact below (Nat.le_refl 7) (stages 7 (Nat.le_refl 7) address)

/-- With the shipped twiddle table no butterfly of a frame of 16-bit samples
loses a bit, and every word of the cache stays below `2 ^ 25`. -/
theorem fft_no_overflow (samples : BitVec 7 → BitVec 16) :
    (∀ n < wings,
      Exact (shippedFactor (BitVec.ofNat 7 (2 ^ stageNo n + offset n)))
        (cacheAfter samples n (wingAt twiddleRamMif n).first)
        (cacheAfter samples n (wingAt twiddleRamMif n).second)) ∧
      ∀ n ≤ wings, ∀ address,
        (cacheAfter samples n address).real.toInt.natAbs < 2 ^ 25 ∧
          (cacheAfter samples n address).im.toInt.natAbs < 2 ^ 25 :=
  ⟨fun _ inside => cacheAfter_exact samples inside,
    fun _ inside address => cacheAfter_small samples inside address⟩

end Synesthesia.FftBounds
