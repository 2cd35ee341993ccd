/-
How close the engine comes to the Fourier transform of its samples.

Every stage adds two errors: its factors are words of the table and not roots of unity,
and its products are rounded down.  The first grows with the samples of a block, the
second only with the number of stages.
-/

import Mathlib.Analysis.Real.Sqrt
import Synesthesia.FusiformGyrus.TwiddleRoots

namespace Synesthesia.FftAccuracy

open Synesthesia.FftBounds
open Synesthesia.FftSchedule
open Synesthesia.Radix2 (blockSum)
open Synesthesia.Rtl

def value (word : ButterflyWing.Complex 32) : GaussianInt := ⟨word.real.toInt, word.im.toInt⟩

theorem value_injective : Function.Injective value := by
  intro left right same
  obtain ⟨real, im⟩ := Zsqrtd.ext_iff.mp same
  cases left
  cases right
  exact congrArg₂ ButterflyWing.Complex.mk (BitVec.eq_of_toInt_eq real) (BitVec.eq_of_toInt_eq im)

/-! ### One stage -/

theorem butterfly_value {factor : ButterflyWing.Complex 10} {a b : ButterflyWing.Complex 32}
    {bound : Nat} (small : factor.real.toInt.natAbs + factor.im.toInt.natAbs ≤ factorSum)
    (room : growth bound ≤ roomy) (first : Bounded bound a) (second : Bounded bound b) :
    value (FftReference.butterfly factor a b).1 =
        value a + Gaussian.shifted 8 (value b * factorValue factor) ∧
      value (FftReference.butterfly factor a b).2 =
        value a - Gaussian.shifted 8 (value b * factorValue factor) := by
  obtain ⟨exactWing, _, _⟩ := butterfly_exact small room first second
  have real : (value b * factorValue factor).re =
      b.real.toInt * factor.real.toInt - b.im.toInt * factor.im.toInt := by
    simp only [Zsqrtd.re_mul, value, factorValue]
    ring
  have im : (value b * factorValue factor).im =
      b.real.toInt * factor.im.toInt + b.im.toInt * factor.real.toInt := by
    simp only [Zsqrtd.im_mul, value, factorValue]
  rw [← FftReference.wingOut_eq]
  constructor
  · apply Zsqrtd.ext
    · rw [Zsqrtd.re_add, Gaussian.shifted, real]
      exact exactWing.sumReal
    · rw [Zsqrtd.im_add, Gaussian.shifted, im]
      exact exactWing.sumIm
  · apply Zsqrtd.ext
    · rw [Zsqrtd.re_sub, Gaussian.shifted, real]
      exact exactWing.differenceReal
    · rw [Zsqrtd.im_sub, Gaussian.shifted, im]
      exact exactWing.differenceIm

def wordAt (samples : BitVec 7 → BitVec 16) (s place : Nat) : GaussianInt :=
  value (cacheAfter samples (64 * s) (BitVec.ofNat 7 place))

theorem stageWings_mem {s b j : Nat} (small : s < 7) (block : b < 2 ^ (6 - s))
    (inside : j < 2 ^ s) :
    FftReference.wing twiddleRamMif s (b * 2 ^ (s + 1)) j ∈ stageWings twiddleRamMif s := by
  have pair : (b * 2 ^ (s + 1), j) ∈ stagePairs s := by
    simp only [stagePairs, List.mem_flatMap, List.mem_map, List.mem_range]
    refine ⟨b, ?_, j, inside, rfl⟩
    rwa [show 64 = 2 ^ 6 from rfl, Nat.pow_div (Nat.le_of_lt_succ small) Nat.two_pos]
  obtain ⟨r, member, same⟩ := List.mem_map.mp ((sequencer_perm s small).mem_iff.mpr pair)
  refine List.mem_map.mpr ⟨r, member, ?_⟩
  rw [wingAt, stageNo_mul_add (List.mem_range.mp member)]
  obtain ⟨start, offset⟩ := Prod.mk.inj same
  rw [start, offset]

theorem place_small {s b j : Nat} (small : s < 7) (block : b < 2 ^ (6 - s)) (inside : j < 2 ^ s) :
    b * 2 ^ (s + 1) + j + 2 ^ s < 128 := by
  have blocks : 2 ^ (6 - s) * 2 ^ (s + 1) = 128 := by
    rw [← Nat.pow_add, show 6 - s + (s + 1) = 7 by omega]
  have start : (b + 1) * 2 ^ (s + 1) ≤ 2 ^ (6 - s) * 2 ^ (s + 1) := Nat.mul_le_mul_right _ block
  rw [blocks, Nat.succ_mul, Nat.pow_succ] at start
  rw [Nat.pow_succ]
  omega

theorem wordAt_succ (samples : BitVec 7 → BitVec 16) {s b j : Nat} (small : s < 7)
    (block : b < 2 ^ (6 - s)) (inside : j < 2 ^ s) :
    let product := Gaussian.shifted 8 (wordAt samples s ((2 * b + 1) * 2 ^ s + j) *
      factorValue (shippedFactor (BitVec.ofNat 7 (2 ^ s + j))))
    wordAt samples (s + 1) (b * 2 ^ (s + 1) + j) =
        wordAt samples s (2 * b * 2 ^ s + j) + product ∧
      wordAt samples (s + 1) (b * 2 ^ (s + 1) + (j + 2 ^ s)) =
        wordAt samples s (2 * b * 2 ^ s + j) - product := by
  intro product
  have bound := place_small small block inside
  have words := stages_bounded (load_bounded samples) s small.le
  have room : growth (boundAt s) ≤ roomy := by
    have := boundAt_small (s + 1) small
    rw [← boundAt_succ, roomy]
    omega
  have distinct : (FftReference.wing twiddleRamMif s (b * 2 ^ (s + 1)) j).second ≠
      (FftReference.wing twiddleRamMif s (b * 2 ^ (s + 1)) j).first := by
    intro same
    have places := congrArg BitVec.toNat same
    change (BitVec.ofNat 7 _).toNat = (BitVec.ofNat 7 _).toNat at places
    rw [BitVec.toNat_ofNat, BitVec.toNat_ofNat, Nat.mod_eq_of_lt bound,
      Nat.mod_eq_of_lt (by omega)] at places
    have := Nat.two_pow_pos s
    omega
  obtain ⟨first, second⟩ := Wing.foldl_operands (stageWings_apart twiddleRamMif small)
    (stageWings_mem small block inside) distinct (cacheAfter samples (64 * s))
  have run : (stageWings twiddleRamMif s).foldl Wing.apply (cacheAfter samples (64 * s)) =
      cacheAfter samples (64 * (s + 1)) := by
    rw [Nat.mul_succ]
    exact (wingsRun_add twiddleRamMif _ (64 * s) 64).symm
  rw [run] at first second
  have left : 2 * b * 2 ^ s + j = b * 2 ^ (s + 1) + j := by
    rw [Nat.pow_succ]
    ring
  have right : (2 * b + 1) * 2 ^ s + j = b * 2 ^ (s + 1) + j + 2 ^ s := by
    rw [Nat.pow_succ]
    ring
  obtain ⟨sum, difference⟩ := butterfly_value
    (shippedFactor_small (BitVec.ofNat 7 (2 ^ s + j))) room
    (words (BitVec.ofNat 7 (b * 2 ^ (s + 1) + j)))
    (words (BitVec.ofNat 7 (b * 2 ^ (s + 1) + j + 2 ^ s)))
  rw [left, ← Nat.add_assoc]
  change _ = _ + Gaussian.shifted 8 (wordAt samples s ((2 * b + 1) * 2 ^ s + j) * _) ∧
    _ = _ - Gaussian.shifted 8 (wordAt samples s ((2 * b + 1) * 2 ^ s + j) * _)
  rw [right]
  exact ⟨(congrArg value first).trans sum, (congrArg value second).trans difference⟩

/-! ### The words as a recursion over blocks -/

/-- The words of a block, made from those of the two blocks it covers. -/
def blockWord (samples : BitVec 7 → BitVec 16) : Nat → Nat → Nat → GaussianInt
  | 0, b, _ => ⟨(samples (BitVec.ofNat 7 (Radix2.bitRev 7 b))).toInt, 0⟩
  | s + 1, b, j =>
      let even := blockWord samples s (2 * b) (j % 2 ^ s)
      let product := Gaussian.shifted 8 (blockWord samples s (2 * b + 1) (j % 2 ^ s) *
        factorValue (shippedFactor (BitVec.ofNat 7 (2 ^ s + j % 2 ^ s))))
      if j < 2 ^ s then even + product else even - product

theorem reverse_eq :
    ∀ b < 128, (BitVec.ofNat 7 b).reverse = BitVec.ofNat 7 (Radix2.bitRev 7 b) := by
  decide +kernel

theorem wordAt_zero (samples : BitVec 7 → BitVec 16) {b : Nat} (block : b < 128) :
    wordAt samples 0 b = blockWord samples 0 b 0 := by
  apply Zsqrtd.ext
  · change ((samples (BitVec.ofNat 7 b).reverse).signExtend 32).toInt = _
    rw [BitVec.toInt_signExtend_of_le (by decide), reverse_eq b block]
    rfl
  · rfl

theorem wordAt_eq (samples : BitVec 7 → BitVec 16) :
    ∀ s ≤ 7, ∀ b < 2 ^ (7 - s), ∀ j < 2 ^ s,
      wordAt samples s (b * 2 ^ s + j) = blockWord samples s b j := by
  intro s
  induction s with
  | zero =>
      intro _ b block j inside
      have first : j = 0 := Nat.lt_one_iff.mp inside
      rw [first, Nat.pow_zero, Nat.mul_one, Nat.add_zero]
      exact wordAt_zero samples block
  | succ s ih =>
      intro small b block j inside
      have blocks : 2 * b + 1 < 2 ^ (7 - s) := by
        rw [show 7 - s = 7 - (s + 1) + 1 by omega, Nat.pow_succ]
        omega
      have low : j % 2 ^ s < 2 ^ s := Nat.mod_lt _ (Nat.two_pow_pos s)
      obtain ⟨sum, difference⟩ := wordAt_succ samples small
        (by rwa [show 6 - s = 7 - (s + 1) by omega]) low
      rw [ih (Nat.le_of_lt small) (2 * b) (by omega) _ low,
        ih (Nat.le_of_lt small) (2 * b + 1) blocks _ low] at sum difference
      rw [blockWord]
      by_cases first : j < 2 ^ s
      · rw [if_pos first]
        rw [Nat.mod_eq_of_lt first] at sum ⊢
        exact sum
      · have second : j % 2 ^ s + 2 ^ s = j := by
          rw [Nat.pow_succ] at inside
          rw [Nat.mod_eq_sub_mod (Nat.le_of_not_lt first), Nat.mod_eq_of_lt (by omega),
            Nat.sub_add_cancel (Nat.le_of_not_lt first)]
        rw [if_neg first]
        rw [second] at difference
        exact difference

theorem wordAt_last (samples : BitVec 7 → BitVec 16) (k : BitVec 7) :
    wordAt samples 7 k.toNat =
      value (FftReference.fft twiddleRamMif (fun index => (samples index).signExtend 32) k) := by
  rw [wordAt, BitVec.ofNat_toNat, BitVec.setWidth_eq, ← wingsRun_eq_fft]
  rfl

/-- A word of the transform, by the recursion. -/
theorem fft_word (samples : BitVec 7 → BitVec 16) {k : BitVec 7} {word : ButterflyWing.Complex 32}
    (evaluated : blockWord samples 7 0 k.toNat = value word) :
    FftReference.fft twiddleRamMif (fun index => (samples index).signExtend 32) k = word := by
  have last := wordAt_eq samples 7 (Nat.le_refl 7) 0 Nat.one_pos k.toNat k.isLt
  rw [Nat.zero_mul, Nat.zero_add, wordAt_last, evaluated] at last
  exact value_injective last

/-! ### The errors of one stage -/

theorem product_close {word : GaussianInt} {factor : GaussianInt} {target root : ℂ}
    {size error off : ℝ} (unit : ‖(factor : ℂ) / 256‖ ≤ 1) (close : ‖(word : ℂ) - target‖ ≤ error)
    (factorClose : ‖(factor : ℂ) / 256 - root‖ ≤ off) (bounded : ‖target‖ ≤ size)
    (nonneg : 0 ≤ off) :
    ‖((Gaussian.shifted 8 (word * factor) : GaussianInt) : ℂ) - root * target‖ ≤
      error + off * size + Real.sqrt 2 := by
  have rounded := Gaussian.shifted_close 8 (word * factor)
  have split : ((Gaussian.shifted 8 (word * factor) : GaussianInt) : ℂ) - root * target =
      (((Gaussian.shifted 8 (word * factor) : GaussianInt) : ℂ) -
        ((word * factor : GaussianInt) : ℂ) / 2 ^ 8) +
        (((factor : ℂ) / 256) * ((word : ℂ) - target) + ((factor : ℂ) / 256 - root) * target) := by
    rw [map_mul]
    norm_num
    ring
  have first : ‖((factor : ℂ) / 256) * ((word : ℂ) - target)‖ ≤ error := by
    rw [Complex.norm_mul]
    calc
      _ ≤ 1 * ‖(word : ℂ) - target‖ := mul_le_mul_of_nonneg_right unit (norm_nonneg _)
      _ ≤ error := by rwa [one_mul]
  have second : ‖((factor : ℂ) / 256 - root) * target‖ ≤ off * size := by
    rw [Complex.norm_mul]
    exact mul_le_mul factorClose bounded (norm_nonneg _) nonneg
  rw [split]
  refine (norm_add_le _ _).trans ?_
  have both := (norm_add_le (((factor : ℂ) / 256) * ((word : ℂ) - target))
    (((factor : ℂ) / 256 - root) * target)).trans (add_le_add first second)
  linarith

/-! ### The errors of a frame -/

noncomputable def signal (samples : BitVec 7 → BitVec 16) (m : Nat) : ℂ :=
  ((samples (BitVec.ofNat 7 m)).toInt : ℂ)

def size (samples : BitVec 7 → BitVec 16) (m : Nat) : Nat :=
  (samples (BitVec.ofNat 7 m)).toInt.natAbs

theorem signal_norm (samples : BitVec 7 → BitVec 16) (m : Nat) :
    ‖signal samples m‖ = size samples m := by
  rw [signal, size, Complex.norm_intCast, Nat.cast_natAbs, Int.cast_abs]

theorem spectrum_norm_le (samples : BitVec 7 → BitVec 16) (width s b j : Nat) :
    ‖Radix2.spectrum root width s (signal samples) b j‖ ≤ blockSum width s (size samples) b := by
  rw [Radix2.spectrum, Radix2.dft, blockSum, Nat.cast_sum]
  refine (norm_sum_le _ _).trans (Finset.sum_le_sum fun m _ => ?_)
  rw [Complex.norm_mul, norm_pow, norm_pow, norm_root, one_pow, one_pow, one_mul, Radix2.samples,
    signal_norm]
  rfl

/-- What the factors have added after `s` stages, for a block of size one. -/
noncomputable def gain : Nat → ℝ
  | 0 => 0
  | s + 1 => gain s + twiddleError s

/-- What the rounding has added after `s` stages. -/
noncomputable def drift : Nat → ℝ
  | 0 => 0
  | s + 1 => 2 * drift s + Real.sqrt 2

/-- After `s` stages every word is close to its part of the transform. -/
def Near (samples : BitVec 7 → BitVec 16) (s : Nat) : Prop :=
  ∀ b < 2 ^ (7 - s), ∀ j < 2 ^ s,
    ‖(wordAt samples s (b * 2 ^ s + j) : ℂ) - Radix2.spectrum root (7 - s) s (signal samples) b j‖ ≤
      gain s * blockSum (7 - s) s (size samples) b + drift s

theorem near_zero (samples : BitVec 7 → BitVec 16) : Near samples 0 := by
  intro b block j inside
  have first : j = 0 := Nat.lt_one_iff.mp inside
  have word : wordAt samples 0 b = ((samples (BitVec.ofNat 7 (Radix2.bitRev 7 b))).toInt :
      GaussianInt) := by
    rw [wordAt_zero samples block]
    apply Zsqrtd.ext
    · rw [Zsqrtd.re_intCast]
      rfl
    · rw [Zsqrtd.im_intCast]
      rfl
  rw [first, Nat.pow_zero, Nat.mul_one, Nat.add_zero, word, Radix2.spectrum_zero, map_intCast,
    signal, sub_self, norm_zero, gain, drift, zero_mul, zero_add]

theorem near_succ (samples : BitVec 7 → BitVec 16) {s : Nat} (small : s < 7)
    (near : Near samples s) : Near samples (s + 1) := by
  have width : 7 - s = 7 - (s + 1) + 1 := by omega
  have halves : 7 - (s + 1) = 6 - s := by omega
  have pair : ∀ b < 2 ^ (6 - s), ∀ j < 2 ^ s,
      ‖(wordAt samples (s + 1) (b * 2 ^ (s + 1) + j) : ℂ) -
          Radix2.spectrum root (6 - s) (s + 1) (signal samples) b j‖ ≤
          gain (s + 1) * blockSum (6 - s) (s + 1) (size samples) b + drift (s + 1) ∧
        ‖(wordAt samples (s + 1) (b * 2 ^ (s + 1) + (j + 2 ^ s)) : ℂ) -
          Radix2.spectrum root (6 - s) (s + 1) (signal samples) b (j + 2 ^ s)‖ ≤
          gain (s + 1) * blockSum (6 - s) (s + 1) (size samples) b + drift (s + 1) := by
    intro b block j inside
    have blocks : 2 * b + 1 < 2 ^ (7 - s) := by
      rw [width, halves, Nat.pow_succ]
      omega
    have even := near (2 * b) (by omega) j inside
    have odd := near (2 * b + 1) blocks j inside
    have half : root ^ 2 ^ (6 - s + s) = -1 := by
      rw [Nat.sub_add_cancel (Nat.le_of_lt_succ small)]
      exact root_half
    obtain ⟨sum, difference⟩ := wordAt_succ samples small block inside
    rw [sum, difference, Radix2.spectrum_first, Radix2.spectrum_second half, map_add, map_sub,
      Radix2.blockSum_succ]
    rw [width, halves] at even odd
    have product := product_close (factorAt_norm small inside) odd (factorAt_close small inside)
      (spectrum_norm_le samples _ s (2 * b + 1) j) (twiddleError_nonneg s)
    rw [gain, drift]
    have weight := mul_nonneg (twiddleError_nonneg s)
      (Nat.cast_nonneg (α := ℝ) (blockSum (6 - s + 1) s (size samples) (2 * b)))
    push_cast
    constructor
    · rw [add_sub_add_comm]
      refine (norm_add_le _ _).trans ?_
      linarith
    · rw [sub_sub_sub_comm]
      refine (norm_sub_le _ _).trans ?_
      linarith
  intro b block j inside
  rw [halves] at *
  by_cases first : j < 2 ^ s
  · exact (pair b block j first).1
  · have second := (pair b block (j - 2 ^ s) (by rw [Nat.pow_succ] at inside; omega)).2
    rwa [Nat.sub_add_cancel (Nat.le_of_not_lt first)] at second

theorem near_all (samples : BitVec 7 → BitVec 16) : ∀ s ≤ 7, Near samples s := by
  intro s
  induction s with
  | zero => exact fun _ => near_zero samples
  | succ s ih => exact fun inside => near_succ samples inside (ih (Nat.le_of_succ_le inside))

theorem gain_last : gain 7 = 3 / 128 := by
  simp only [gain, twiddleError]
  norm_num

theorem drift_last : drift 7 ≤ 180 := by
  have root_two : Real.sqrt 2 ≤ 1415 / 1000 := by
    rw [Real.sqrt_le_left (by norm_num)]
    norm_num
  simp only [drift]
  linarith

noncomputable def transform (samples : BitVec 7 → BitVec 16) (k : Nat) : ℂ :=
  ∑ m ∈ Finset.range 128,
    Complex.exp (-(2 * Real.pi * k * m / 128 : ℝ) * Complex.I) * signal samples m

theorem transform_eq_dft (samples : BitVec 7 → BitVec 16) (k : Nat) :
    transform samples k = Radix2.dft root 128 (signal samples) k := by
  unfold transform Radix2.dft
  refine Finset.sum_congr rfl fun m _ => ?_
  rw [root_pow]
  congr 3
  push_cast
  ring

def total (samples : BitVec 7 → BitVec 16) : Nat := ∑ m ∈ Finset.range 128, size samples m

/-- With the shipped table the engine's transform of 16-bit samples is the Fourier transform,
up to 3 / 128 of the sum of the samples and a constant. -/
theorem fft_close (samples : BitVec 7 → BitVec 16) (k : BitVec 7) :
    ‖(value (FftReference.fft twiddleRamMif (fun index => (samples index).signExtend 32) k) : ℂ) -
      transform samples k.toNat‖ ≤ 3 / 128 * total samples + 180 := by
  have near := near_all samples 7 (Nat.le_refl 7) 0 Nat.one_pos k.toNat k.isLt
  rw [Nat.zero_mul, Nat.zero_add, Nat.sub_self, Radix2.spectrum_last, Radix2.blockSum_last,
    gain_last] at near
  rw [wordAt_last] at near
  rw [transform_eq_dft]
  exact near.trans (add_le_add (le_refl _) drift_last)

end Synesthesia.FftAccuracy

namespace Synesthesia.FftEngine

open Synesthesia.FftBounds (twiddleRamMif)

/-- In every run without local-bus access to its RAMs while it works, the engine enters
`CORDIC_S` with a cache close to the Fourier transform of the frame, when the twiddle RAM
has its shipped contents and the samples are 16-bit audio. -/
theorem fftEngine_approximates_transform (sampleRealIsZero3d : Bool)
    (real im twiddle : BitVec 7 → BitVec 32) (inputs : Nat → Inputs)
    (quiet : ∀ t, (stateAt sampleRealIsZero3d real im twiddle inputs t).fsm.fsmPstate ≠ .idle →
      NoRamAccess (inputs t).lb2ram)
    (t : Nat)
    (outside : (stateAt sampleRealIsZero3d real im twiddle inputs t).fsm.fsmPstate ≠ .cordic)
    (entered :
      (stateAt sampleRealIsZero3d real im twiddle inputs (t + 1)).fsm.fsmPstate = .cordic) :
    let states := stateAt sampleRealIsZero3d real im twiddle inputs
    ∃ start, Starts states inputs start ∧ start + 1 + frameClocks = t + 1 ∧
      ∀ samples : BitVec 7 → BitVec 16,
        (states (start + 1)).twiddleRam.memory = twiddleRamMif →
        PcmRam (fun i => states (start + 1 + i)) (fun i => inputs (start + 1 + i))
          (fun index => (samples index).signExtend 32) →
        ∀ k : BitVec 7, ‖(FftAccuracy.value (cache (states (t + 1)) k) : ℂ) -
          FftAccuracy.transform samples k.toNat‖ ≤ 3 / 128 * FftAccuracy.total samples + 180 := by
  intro states
  have runs : Runs states inputs := fun _ => rfl
  have ready : FgyrusFsm.StageReady (states 0).fsm := FgyrusFsm.stageReady_reset _
  obtain ⟨start, starts, same⟩ := runs.entry_of_frame rfl ready outside entered
  refine ⟨start, starts, same, fun samples shipped pcm k => ?_⟩
  have frame := runs.frame ready quiet starts
  have transformed := frame.cache_eq_fft pcm
  rw [frame.twiddles_keep _ (Nat.le_refl _), Nat.add_zero, shipped, same] at transformed
  rw [transformed]
  exact FftAccuracy.fft_close samples k

theorem ramp_wide (index : BitVec 7) :
    index.setWidth 32 = (index.setWidth 16 : BitVec 16).signExtend 32 := by
  have positive : (index.setWidth 16 : BitVec 16).msb = false := by
    rw [BitVec.msb_setWidth, BitVec.getLsbD_of_ge _ _ (by decide), Bool.and_false]
  rw [BitVec.signExtend_eq_setWidth_of_msb_false positive,
    BitVec.setWidth_setWidth (by decide)]

theorem fftEngine_approximates_ramp :
    let states := stateAt false (fun _ => 0) (fun _ => 0) twiddleRamMif rampInputs
    let samples : BitVec 7 → BitVec 16 := fun index => index.setWidth 16
    ∀ k : BitVec 7, ‖(FftAccuracy.value (cache (states (1 + frameClocks)) k) : ℂ) -
      FftAccuracy.transform samples k.toNat‖ ≤ 3 / 128 * FftAccuracy.total samples + 180 := by
  intro states samples k
  have runs : Runs states rampInputs := fun _ => rfl
  have starts : Starts states rampInputs 0 := ⟨rfl, rfl, rfl⟩
  have ready : FgyrusFsm.StageReady (states 0).fsm := FgyrusFsm.stageReady_reset _
  obtain ⟨cordic, earlier⟩ := (runs.opening ready starts).cordic
  obtain ⟨start, _, same, close⟩ := fftEngine_approximates_transform false (fun _ => 0)
    (fun _ => 0) twiddleRamMif rampInputs (fun t _ => rampInputs_quiet t)
    (0 + 1 + (frameClocks - 1)) (earlier (frameClocks - 1) (by decide)).1 cordic
  have first : start = 0 := by
    rw [show frameClocks = 3275 from rfl] at same
    omega
  subst first
  have frame := runs.frame ready (fun t _ => rampInputs_quiet t) starts
  refine close samples rfl (fun i inside => ?_) k
  have address := (frame.copying i (by rw [copyClocks]; omega)).cntr
  change ((BitVec.ofNat 7 (0 + 1 + (i + 2) - 3)).reverse).setWidth 32 = _
  rw [FgyrusFsm.pcmRamRdAddrOd, FgyrusFsm.sampleCntrBitRevW, address,
    show 0 + 1 + (i + 2) - 3 = i by omega]
  exact ramp_wide _

end Synesthesia.FftEngine
