/-
The result RAM as a measurement.

With the tables of the repository and no post-normalisation a word of the result RAM is
compared with the modulus of the bin of the cache it comes from, and with the modulus of
the Fourier transform of the samples.
-/

import Synesthesia.FusiformGyrus.FftAccuracy
import Synesthesia.FusiformGyrus.FrameResults
import Synesthesia.FusiformGyrus.MagnitudeAccuracy

namespace Synesthesia.Magnitude

open Synesthesia.FftAccuracy (value)
open Synesthesia.FftSchedule (wings wingsRun_eq_fft)

theorem modulus_eq (word : BitVec 32) : modulus word = word.toInt.natAbs := by
  have bound := word.isLt
  rw [modulus, BitVec.toNat_abs, BitVec.toInt_eq_msb_cond]
  cases word.msb with
  | true =>
      rw [if_pos rfl, if_pos rfl]
      omega
  | false =>
      rw [if_neg Bool.false_ne_true, if_neg Bool.false_ne_true]
      exact (Int.natAbs_natCast _).symm

theorem modulusSq_eq (word : ButterflyWing.Complex 32) :
    (modulusSq word : ℝ) = ‖(value word : ℂ)‖ ^ 2 := by
  rw [Gaussian.norm_sq, modulusSq, modulus_eq, modulus_eq, Zsqrtd.norm_def]
  push_cast
  rw [Nat.cast_natAbs, Nat.cast_natAbs, Int.cast_abs, Int.cast_abs, sq_abs, sq_abs, value]
  ring

theorem fft_inRange (samples : BitVec 7 → BitVec 16) (k : BitVec 7) :
    let bin := FftReference.fft FftBounds.twiddleRamMif
      (fun index => (samples index).signExtend 32) k
    bin.real ≠ 0 ∨ bin.im ≠ 0 → InRange bin := by
  intro bin nonzero
  obtain ⟨real, im⟩ := FftBounds.cacheAfter_small samples (Nat.le_refl wings) k
  rw [FftBounds.cacheAfter, wingsRun_eq_fft] at real im
  rw [← modulus_eq] at real im
  exact ⟨real, im, nonzero⟩

theorem magnitude_le_norm {word : ButterflyWing.Complex 32}
    (range : word.real ≠ 0 ∨ word.im ≠ 0 → InRange word) :
    (magnitude cordicRamMif word : ℝ) ≤ 105 / 100 * ‖(value word : ℂ)‖ := by
  have squares : (100 * magnitude cordicRamMif word : ℝ) ^ 2 ≤ (105 * ‖(value word : ℂ)‖) ^ 2 := by
    rw [mul_pow, mul_pow, ← modulusSq_eq]
    by_cases nonzero : word.real ≠ 0 ∨ word.im ≠ 0
    · exact_mod_cast (magnitude_upper (range nonzero)).le
    · have zero : word.real = 0 := by
        by_contra real
        exact nonzero (.inl real)
      rw [magnitude_zero zero, Nat.cast_zero, zero_pow two_ne_zero, mul_zero]
      positivity
  have bound := (abs_le_of_sq_le_sq' squares (by positivity)).2
  linarith

theorem norm_le_magnitude {word : ButterflyWing.Complex 32} (range : InRange word)
    (resolved : Resolved word) :
    95 / 100 * ‖(value word : ℂ)‖ ≤ magnitude cordicRamMif word := by
  have squares : (95 * ‖(value word : ℂ)‖) ^ 2 ≤ (100 * magnitude cordicRamMif word : ℝ) ^ 2 := by
    rw [mul_pow, mul_pow, ← modulusSq_eq]
    exact_mod_cast ((accurate_iff range).mpr resolved).1.le
  have bound := (abs_le_of_sq_le_sq' squares (by positivity)).2
  linarith

end Synesthesia.Magnitude

namespace Synesthesia.FgyrusTop

open Synesthesia.Rtl
open Synesthesia.FftEngine
open Synesthesia.FftAccuracy (total transform)
open Synesthesia.FftBounds (twiddleRamMif)
open Synesthesia.Magnitude (Accurate InRange Resolved cordicRamMif)

theorem cordicRamMif_nonzero (address : BitVec 8) : cordicRamMif address ≠ 0 := by
  intro zero
  have facts := (Magnitude.table_facts ⟨address.toNat, address.isLt⟩).2
  rw [BitVec.ofNat_toNat, BitVec.setWidth_eq, zero, show (0 : BitVec 16).toNat = 0 from rfl,
    Nat.zero_mul] at facts
  exact absurd facts (by decide)

section Shipped

variable {sampleRealIsZero3d : Bool} {real im twiddle : BitVec 7 → BitVec 32}
  {cordic : BitVec 8 → BitVec 16} {inputs : Nat → Inputs}

theorem shippedRam_eq {t : Nat}
    (outside : (engineAt sampleRealIsZero3d real im twiddle cordic inputs t).fsm.fsmPstate ≠
      .cordic)
    (entered : (engineAt sampleRealIsZero3d real im twiddle cordic inputs (t + 1)).fsm.fsmPstate =
      .cordic)
    (left : ∀ k < passClocks,
      RamsLeft (stateAt sampleRealIsZero3d real im twiddle cordic inputs (t + 1 + k)).lb.lb2ram)
    (shipped : (stateAt sampleRealIsZero3d real im twiddle cordic inputs
      (t + 1)).cordicRam.memory = cordicRamMif)
    (plain : ∀ k < passClocks,
      (stateAt sampleRealIsZero3d real im twiddle cordic inputs (t + 1 + k)).lb.fgyrusPostNormOd =
        0)
    (contents : BitVec 7 → BitVec 32) (address : BitVec 7) :
    (resultRam contents (engineAt sampleRealIsZero3d real im twiddle cordic inputs)
        (t + 1 + passClocks + 1) address).toNat =
      Magnitude.magnitude cordicRamMif
        (cache (engineAt sampleRealIsZero3d real im twiddle cordic inputs (t + 1)) address) := by
  obtain ⟨trace, abs, early⟩ := passTraces outside entered left plain
  rw [shipped] at trace
  have words := fun i (small : i < 128) => trace.results_at abs cordicRamMif_nonzero small
  rw [Nat.add_assoc (t + 1), resultRam_shift, trace.resultRam_eq abs early words, results,
    BitVec.ofNat_toNat, BitVec.setWidth_eq]
  exact Magnitude.result_toNat _ _ _

end Shipped

/-- With the shipped table and no post-normalisation, the word that the passes write for a
bin is within five percent of its modulus if and only if the bin is resolved. -/
theorem passes_accurate_iff (sampleRealIsZero3d : Bool) (real im twiddle : BitVec 7 → BitVec 32)
    (cordic : BitVec 8 → BitVec 16) (inputs : Nat → Inputs) (contents : BitVec 7 → BitVec 32)
    (t : Nat)
    (outside : (engineAt sampleRealIsZero3d real im twiddle cordic inputs t).fsm.fsmPstate ≠
      .cordic)
    (entered : (engineAt sampleRealIsZero3d real im twiddle cordic inputs (t + 1)).fsm.fsmPstate =
      .cordic)
    (left : ∀ k < passClocks,
      RamsLeft (stateAt sampleRealIsZero3d real im twiddle cordic inputs (t + 1 + k)).lb.lb2ram)
    (shipped : (stateAt sampleRealIsZero3d real im twiddle cordic inputs
      (t + 1)).cordicRam.memory = cordicRamMif)
    (plain : ∀ k < passClocks,
      (stateAt sampleRealIsZero3d real im twiddle cordic inputs (t + 1 + k)).lb.fgyrusPostNormOd =
        0)
    (address : BitVec 7) :
    let engine := engineAt sampleRealIsZero3d real im twiddle cordic inputs
    let bin := cache (engine (t + 1)) address
    InRange bin →
      (Accurate bin (resultRam contents engine (t + 1 + passClocks + 1) address).toNat ↔
        Resolved bin) := by
  intro engine bin range
  rw [shippedRam_eq outside entered left shipped plain contents address]
  exact Magnitude.accurate_iff range

/-! ### The bins of a ramp -/

/-- Two bins of the ramp.  The tangent of the second is rounded down to zero. -/
theorem ramp_bins :
    let bins := FftReference.fft twiddleRamMif
      (fun index => (index.setWidth 16 : BitVec 16).signExtend 32)
    (bins 0 = ⟨8128, 0⟩ ∧ Resolved ⟨8128, 0⟩) ∧
      bins 40 = ⟨-64, 42⟩ ∧ Magnitude.magnitude cordicRamMif ⟨-64, 42⟩ = 64 := by
  have evaluated :
      (FftAccuracy.blockWord (fun index => index.setWidth 16) 7 0 0 =
          FftAccuracy.value ⟨8128, 0⟩ ∧ Resolved ⟨8128, 0⟩) ∧
        FftAccuracy.blockWord (fun index => index.setWidth 16) 7 0 40 =
          FftAccuracy.value ⟨-64, 42⟩ ∧ Magnitude.magnitude cordicRamMif ⟨-64, 42⟩ = 64 := by
    decide +kernel
  obtain ⟨⟨mean, resolved⟩, missed, magnitude⟩ := evaluated
  exact ⟨⟨FftAccuracy.fft_word _ mean, resolved⟩, FftAccuracy.fft_word _ missed, magnitude⟩

theorem ramp_passes :
    let engine := engineAt false (fun _ => 0) (fun _ => 0) twiddleRamMif cordicRamMif
      (rampInputs fun _ => false)
    (engine 3276).fsm.fsmPstate ≠ .cordic ∧ (engine 3277).fsm.fsmPstate = .cordic ∧
      cache (engine 3277) = FftReference.fft twiddleRamMif
        (fun index => (index.setWidth 16 : BitVec 16).signExtend 32) := by
  intro engine
  have control := ramp_control fun _ => false
  have starts := ramp_starts twiddleRamMif cordicRamMif fun _ => false
  have clock := timed starts
  have pcm := ramp_pcm twiddleRamMif cordicRamMif fun _ => false
  rw [funext ramp_wide] at pcm
  have words := control.undisturbed.cache_eq starts pcm
  rw [engineAt, (control.tables _).2] at words
  have outside := clock.schedule (i := frameClocks - 1) (by decide)
  refine ⟨fun cordic => ?_, clock.cordicClock.pstate, words⟩
  exact absurd (outside.symm.trans cordic) (by decide)

theorem passes_accurate_ramp :
    let engine := engineAt false (fun _ => 0) (fun _ => 0) twiddleRamMif cordicRamMif
      (rampInputs fun _ => false)
    cache (engine 3277) 0 = ⟨8128, 0⟩ ∧ Resolved ⟨8128, 0⟩ ∧
      Accurate ⟨8128, 0⟩ (resultRam (fun _ => 0) engine (3277 + passClocks + 1) 0).toNat := by
  intro engine
  have control := ramp_control fun _ => false
  obtain ⟨outside, entered, words⟩ := ramp_passes
  have bin : cache (engine 3277) 0 = ⟨8128, 0⟩ := by
    rw [words]
    exact ramp_bins.1.1
  have resolved : Resolved ⟨8128, 0⟩ := ramp_bins.1.2
  have accurate : InRange (cache (engine 3277) 0) →
      (Accurate (cache (engine 3277) 0)
          (resultRam (fun _ => 0) engine (3277 + passClocks + 1) 0).toNat ↔
        Resolved (cache (engine 3277) 0)) :=
    passes_accurate_iff false (fun _ => 0) (fun _ => 0) twiddleRamMif cordicRamMif
      (rampInputs fun _ => false) (fun _ => 0) 3276 outside entered
      (fun _ _ => (control.windows _).ramsLeft) (control.tables _).1
      (fun _ _ => control.postNorm _) 0
  rw [bin] at accurate
  exact ⟨bin, resolved, (accurate ⟨by decide, by decide, by decide⟩).mpr resolved⟩

/-- The bin 40 of a ramp has the real part -64 and the imaginary part 42.  Its tangent is
rounded down to zero, so that the word written for it is the real part alone. -/
theorem ramp_bin_missed :
    let state := stateAt false (fun _ => 0) (fun _ => 0) twiddleRamMif cordicRamMif
      (rampInputs fun _ => false)
    let engine := engineAt false (fun _ => 0) (fun _ => 0) twiddleRamMif cordicRamMif
      (rampInputs fun _ => false)
    ((engine 3276).fsm.fsmPstate ≠ .cordic ∧ (engine 3277).fsm.fsmPstate = .cordic ∧
      (∀ t, RamsLeft (state t).lb.lb2ram) ∧ (state 3277).cordicRam.memory = cordicRamMif ∧
      ∀ t, (state t).lb.fgyrusPostNormOd = 0) ∧
    cache (engine 3277) 40 = ⟨-64, 42⟩ ∧ InRange ⟨-64, 42⟩ ∧
      (resultRam (fun _ => 0) engine (3277 + passClocks + 1) 40).toNat = 64 ∧
      ¬ Accurate ⟨-64, 42⟩ 64 := by
  intro state engine
  have control := ramp_control fun _ => false
  obtain ⟨outside, entered, words⟩ := ramp_passes
  have left : ∀ t, RamsLeft (state t).lb.lb2ram := fun t => (control.windows t).ramsLeft
  have plain : ∀ t, (state t).lb.fgyrusPostNormOd = 0 := fun t => control.postNorm t
  have shipped : (state 3277).cordicRam.memory = cordicRamMif := (control.tables _).1
  have bin : cache (engine 3277) 40 = ⟨-64, 42⟩ := by
    rw [words]
    exact ramp_bins.2.1
  refine ⟨⟨outside, entered, left, shipped, plain⟩, bin, ⟨by decide, by decide, by decide⟩, ?_,
    by decide⟩
  rw [shippedRam_eq (t := 3276) outside entered (fun _ _ => left _) shipped (fun _ _ => plain _),
    bin]
  exact ramp_bins.2.2

/-! ### Frames -/

/-- In every undisturbed run with the shipped tables and no post-normalisation, the words
of the result RAM never exceed the spectrum of the frame by more than five percent and the
error of the transform.  They fall short of it by no more if the bin is resolved, and
exactly the resolved bins are within five percent of the bins of the cache. -/
theorem frame_accuracy (sampleRealIsZero3d : Bool) (real im twiddle : BitVec 7 → BitVec 32)
    (cordic : BitVec 8 → BitVec 16) (inputs : Nat → Inputs)
    (undisturbed : Undisturbed sampleRealIsZero3d real im twiddle cordic inputs) (start : Nat)
    (starts : Starts (engineAt sampleRealIsZero3d real im twiddle cordic inputs)
      (engineInputsAt sampleRealIsZero3d real im twiddle cordic inputs) start)
    (samples : BitVec 7 → BitVec 16)
    (pcm : PcmRam
      (fun i => engineAt sampleRealIsZero3d real im twiddle cordic inputs (start + 1 + i))
      (fun i => engineInputsAt sampleRealIsZero3d real im twiddle cordic inputs (start + 1 + i))
      (fun index => (samples index).signExtend 32))
    (twiddles : (engineAt sampleRealIsZero3d real im twiddle cordic inputs
      (start + 1)).twiddleRam.memory = twiddleRamMif)
    (cosines : (stateAt sampleRealIsZero3d real im twiddle cordic inputs
      (start + 1)).cordicRam.memory = cordicRamMif)
    (plain : (stateAt sampleRealIsZero3d real im twiddle cordic inputs
      (start + 1)).lb.fgyrusPostNormOd = 0)
    (contents : BitVec 7 → BitVec 32) (k : BitVec 7) :
    let bin := FftReference.fft twiddleRamMif (fun index => (samples index).signExtend 32) k
    let m := (resultRam contents (engineAt sampleRealIsZero3d real im twiddle cordic inputs)
      (start + 1 + busyClocks + 1) k).toNat
    let error : ℝ := 3 / 128 * total samples + 180
    (m : ℝ) ≤ 105 / 100 * (‖transform samples k.toNat‖ + error) ∧
      (Resolved bin → 95 / 100 * (‖transform samples k.toNat‖ - error) ≤ m) ∧
      (bin.real ≠ 0 ∨ bin.im ≠ 0 → (Accurate bin m ↔ Resolved bin)) := by
  intro bin m error
  have word : m = Magnitude.magnitude cordicRamMif bin := by
    have nonzero : ∀ address, (stateAt sampleRealIsZero3d real im twiddle cordic inputs
        (start + 1)).cordicRam.memory address ≠ 0 := by
      rw [cosines]
      exact cordicRamMif_nonzero
    have stored := undisturbed.resultRam_eq starts pcm nonzero contents k
    rw [engineAt] at twiddles
    rw [frameResult, cosines, twiddles, plain, BitVec.ofNat_toNat, BitVec.setWidth_eq] at stored
    exact (congrArg BitVec.toNat stored).trans (Magnitude.result_toNat _ _ _)
  have range : bin.real ≠ 0 ∨ bin.im ≠ 0 → Magnitude.InRange bin := Magnitude.fft_inRange samples k
  have close : dist (FftAccuracy.value bin : ℂ) (transform samples k.toNat) ≤ error := by
    rw [dist_eq_norm]
    exact FftAccuracy.fft_close samples k
  have upper : ‖(FftAccuracy.value bin : ℂ)‖ ≤ ‖transform samples k.toNat‖ + error :=
    norm_le_norm_add_const_of_dist_le close
  have lower : ‖transform samples k.toNat‖ ≤ ‖(FftAccuracy.value bin : ℂ)‖ + error :=
    norm_le_norm_add_const_of_dist_le ((dist_comm _ _).trans_le close)
  rw [word]
  refine ⟨?_, fun resolved => ?_, fun nonzero => Magnitude.accurate_iff (range nonzero)⟩
  · have bound := Magnitude.magnitude_le_norm range
    linarith
  · have bound := Magnitude.norm_le_magnitude (range (.inl resolved.1)) resolved
    linarith

theorem frame_accuracy_ramp :
    Accurate ⟨8128, 0⟩ (resultRam (fun _ => 0)
      (engineAt false (fun _ => 0) (fun _ => 0) twiddleRamMif cordicRamMif
        (rampInputs fun _ => false)) (1 + 1 + busyClocks + 1) 0).toNat := by
  have control := ramp_control fun _ => false
  have pcm := ramp_pcm twiddleRamMif cordicRamMif fun _ => false
  rw [funext ramp_wide] at pcm
  have accuracy := frame_accuracy false (fun _ => 0) (fun _ => 0) twiddleRamMif cordicRamMif
    (rampInputs fun _ => false) control.undisturbed 1 (ramp_starts _ _ _)
    (fun index => index.setWidth 16) pcm (control.tables _).2 (control.tables _).1
    (control.postNorm _) (fun _ => 0) 0
  rw [ramp_bins.1.1] at accuracy
  exact (accuracy.2.2 (.inl (by decide))).mpr ramp_bins.1.2

end Synesthesia.FgyrusTop
