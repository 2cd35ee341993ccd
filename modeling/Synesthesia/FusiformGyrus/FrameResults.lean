/-
The results of a frame.

While the host leaves the RAM windows and the post-normalisation alone, the result RAM
receives the magnitudes of the transform of the samples.  Two such runs that differ only
in what the host reads write the same results at the same times.
-/

import Synesthesia.FusiformGyrus.FrameSchedule

namespace Synesthesia.FgyrusTop

open Synesthesia.Rtl
open Synesthesia.FftEngine
open Synesthesia.FgyrusFsm (cordicClocks absClocks)
open Synesthesia.FgyrusLb (Lb2Ram)

/-- The local bus leaves all windows to the RAMs of the engine alone. -/
structure WindowsLeft (lb2ram : Lb2Ram) : Prop extends NoRamAccess lb2ram where
  cordicWr : lb2ram.cordicRamWrEnOh = false
  cordicRd : lb2ram.cordicRamRdEnOh = false

theorem WindowsLeft.ramsLeft {lb2ram : Lb2Ram} (left : WindowsLeft lb2ram) : RamsLeft lb2ram :=
  { toCacheLeft := left.toNoRamAccess.cacheLeft
    cordicWr := left.cordicWr
    cordicRd := left.cordicRd }

theorem nextRamRdEn_eq_false {lb : FgyrusLb.State} {lbInputs : FgyrusLb.Inputs} {rdEn : Bool}
    {code : BitVec 4} (low : rdEn = false) (other : FgyrusLb.blockCode lbInputs ≠ code) :
    FgyrusLb.nextRamRdEn rdEn code lb lbInputs = false := by
  rw [FgyrusLb.nextRamRdEn, low, if_neg Bool.false_ne_true, beq_eq_false_iff_ne.mpr other,
    Bool.false_and]

theorem WindowsLeft.step {lb : FgyrusLb.State} (left : WindowsLeft lb.lb2ram)
    {lbInputs : FgyrusLb.Inputs}
    (registers : FgyrusLb.blockCode lbInputs = FgyrusLb.fgyrusRegCode) :
    WindowsLeft (FgyrusLb.step lb lbInputs).lb2ram := by
  have other (code : BitVec 4) (other : FgyrusLb.fgyrusRegCode ≠ code) :
      FgyrusLb.blockCode lbInputs ≠ code := by
    rw [registers]
    exact other
  have block (code : BitVec 4) (different : FgyrusLb.fgyrusRegCode ≠ code) :
      (FgyrusLb.blockCode lbInputs == code) = false :=
    beq_eq_false_iff_ne.mpr (other code different)
  refine
    { fftRealWr := ?_
      fftImWr := ?_
      twiddleWr := ?_
      fftRealRd := nextRamRdEn_eq_false left.fftRealRd (other _ (by decide))
      fftImRd := nextRamRdEn_eq_false left.fftImRd (other _ (by decide))
      twiddleRd := nextRamRdEn_eq_false left.twiddleRd (other _ (by decide))
      cordicWr := ?_
      cordicRd := nextRamRdEn_eq_false left.cordicRd (other _ (by decide)) }
  · simp only [FgyrusLb.step, FgyrusLb.nextLb2Ram,
      block FgyrusLb.fgyrusFftRealRamCode (by decide), Bool.false_and]
  · simp only [FgyrusLb.step, FgyrusLb.nextLb2Ram,
      block FgyrusLb.fgyrusFftImRamCode (by decide), Bool.false_and]
  · simp only [FgyrusLb.step, FgyrusLb.nextLb2Ram,
      block FgyrusLb.fgyrusTwdleRamCode (by decide), Bool.false_and]
  · simp only [FgyrusLb.step, FgyrusLb.nextLb2Ram,
      block FgyrusLb.fgyrusCordicRamCode (by decide), Bool.false_and]

section Run

variable (sampleRealIsZero3d : Bool) (real im twiddle : BitVec 7 → BitVec 32)
  (cordic : BitVec 8 → BitVec 16) (inputs : Nat → Inputs)

/-- While the engine works, the host leaves the RAM windows and the post-normalisation
alone. -/
structure Undisturbed : Prop where
  windows : ∀ t,
    (engineAt sampleRealIsZero3d real im twiddle cordic inputs t).fsm.fsmPstate ≠ .idle →
      WindowsLeft (stateAt sampleRealIsZero3d real im twiddle cordic inputs t).lb.lb2ram
  postNorm : ∀ t,
    (engineAt sampleRealIsZero3d real im twiddle cordic inputs t).fsm.fsmPstate ≠ .idle →
      (stateAt sampleRealIsZero3d real im twiddle cordic inputs (t + 1)).lb.fgyrusPostNormOd =
        (stateAt sampleRealIsZero3d real im twiddle cordic inputs t).lb.fgyrusPostNormOd

/-- What the result RAM is to hold after the frame that started at `start`. -/
def frameResult (start : Nat) (samples : BitVec 7 → BitVec 32) (i : Nat) : BitVec 32 :=
  let first := stateAt sampleRealIsZero3d real im twiddle cordic inputs (start + 1)
  Magnitude.result first.cordicRam.memory first.lb.fgyrusPostNormOd
    (FftReference.fft first.engine.twiddleRam.memory samples (BitVec.ofNat 7 i))

variable {sampleRealIsZero3d real im twiddle cordic inputs}

theorem timed {start : Nat}
    (starts : Starts (engineAt sampleRealIsZero3d real im twiddle cordic inputs)
      (engineInputsAt sampleRealIsZero3d real im twiddle cordic inputs) start) :
    Timed (fun i => engineAt sampleRealIsZero3d real im twiddle cordic inputs (start + 1 + i))
      (fun i => engineInputsAt sampleRealIsZero3d real im twiddle cordic inputs (start + 1 + i)) :=
  (engine_runs sampleRealIsZero3d real im twiddle cordic inputs).timed
    (FgyrusFsm.stageReady_reset _) (fun _ => rfl) starts

section Frame

variable (undisturbed : Undisturbed sampleRealIsZero3d real im twiddle cordic inputs)
  {start : Nat} (starts : Starts (engineAt sampleRealIsZero3d real im twiddle cordic inputs)
    (engineInputsAt sampleRealIsZero3d real im twiddle cordic inputs) start)

include starts

theorem frame_busy {i : Nat} (inside : i < busyClocks) :
    (engineAt sampleRealIsZero3d real im twiddle cordic inputs (start + 1 + i)).fsm.fsmPstate ≠
      .idle := by
  rw [(timed starts).schedule inside]
  exact schedule_busy i

include undisturbed

theorem Undisturbed.constant {i : Nat} (inside : i ≤ busyClocks) :
    (stateAt sampleRealIsZero3d real im twiddle cordic inputs (start + 1 + i)).cordicRam.memory =
        (stateAt sampleRealIsZero3d real im twiddle cordic inputs (start + 1)).cordicRam.memory ∧
      (stateAt sampleRealIsZero3d real im twiddle cordic inputs
          (start + 1 + i)).lb.fgyrusPostNormOd =
        (stateAt sampleRealIsZero3d real im twiddle cordic inputs
          (start + 1)).lb.fgyrusPostNormOd := by
  constructor
  · refine holds_over (fun k =>
      (stateAt sampleRealIsZero3d real im twiddle cordic inputs k).cordicRam.memory)
      (fun k (window : k < busyClocks) => ?_) i inside
    exact (cordicRam_step _
      (undisturbed.windows _ (frame_busy starts window)).ramsLeft).1
  · refine holds_over (fun k =>
      (stateAt sampleRealIsZero3d real im twiddle cordic inputs k).lb.fgyrusPostNormOd)
      (fun k (window : k < busyClocks) => ?_) i inside
    exact undisturbed.postNorm _ (frame_busy starts window)

theorem Undisturbed.cordicTrace :
    CordicTrace
      (fun k => engineAt sampleRealIsZero3d real im twiddle cordic inputs
        (start + 1 + frameClocks + k))
      (fun k => engineInputsAt sampleRealIsZero3d real im twiddle cordic inputs
        (start + 1 + frameClocks + k))
      (stateAt sampleRealIsZero3d real im twiddle cordic inputs (start + 1)).cordicRam.memory := by
  rw [← (undisturbed.constant starts (i := frameClocks) (Nat.le_add_right _ _)).1]
  refine FgyrusTop.cordicTrace (timed starts).cordicClock fun k inside => ?_
  rw [Nat.add_assoc (start + 1)]
  exact (undisturbed.windows _
    (frame_busy starts (Nat.add_lt_add_left inside _))).ramsLeft

theorem Undisturbed.absTrace :
    AbsTrace
      (fun e => engineAt sampleRealIsZero3d real im twiddle cordic inputs
        (start + 1 + frameClocks + (cordicClocks + e)))
      (fun e => engineInputsAt sampleRealIsZero3d real im twiddle cordic inputs
        (start + 1 + frameClocks + (cordicClocks + e)))
      (stateAt sampleRealIsZero3d real im twiddle cordic inputs
        (start + 1)).lb.fgyrusPostNormOd := by
  refine (undisturbed.cordicTrace starts).absTrace (fun e inside => ?_) (fun e inside => ?_)
  · rw [Nat.add_assoc (start + 1)]
    have window : frameClocks + (cordicClocks + e) < busyClocks :=
      Nat.add_lt_add_left (Nat.add_lt_add_left inside _) _
    exact (undisturbed.windows _ (frame_busy starts window)).ramsLeft.toCacheLeft
  · rw [Nat.add_assoc (start + 1)]
    have window : frameClocks + (cordicClocks + e) ≤ busyClocks :=
      Nat.add_le_add_left (Nat.add_le_add_left (Nat.le_of_lt inside) _) _
    exact (undisturbed.constant starts window).2

variable {samples : BitVec 7 → BitVec 32}
  (pcm : PcmRam
    (fun i => engineAt sampleRealIsZero3d real im twiddle cordic inputs (start + 1 + i))
    (fun i => engineInputsAt sampleRealIsZero3d real im twiddle cordic inputs (start + 1 + i))
    samples)

include pcm

omit undisturbed in
theorem frame_cache
    (quiet : ∀ t,
      (engineAt sampleRealIsZero3d real im twiddle cordic inputs t).fsm.fsmPstate ≠ .idle →
        NoRamAccess (stateAt sampleRealIsZero3d real im twiddle cordic inputs t).lb.lb2ram) :
    cache (engineAt sampleRealIsZero3d real im twiddle cordic inputs (start + 1 + frameClocks)) =
      FftReference.fft
        (engineAt sampleRealIsZero3d real im twiddle cordic inputs (start + 1)).twiddleRam.memory
        samples := by
  have frame := (engine_runs sampleRealIsZero3d real im twiddle cordic inputs).frame
    (FgyrusFsm.stageReady_reset _) quiet starts
  have transformed := frame.cache_eq_fft pcm
  rw [frame.twiddles_keep _ (Nat.le_refl _)] at transformed
  exact transformed

theorem Undisturbed.cache_eq :
    cache (engineAt sampleRealIsZero3d real im twiddle cordic inputs (start + 1 + frameClocks)) =
      FftReference.fft
        (engineAt sampleRealIsZero3d real im twiddle cordic inputs (start + 1)).twiddleRam.memory
        samples :=
  frame_cache starts pcm fun t busy => (undisturbed.windows t busy).toNoRamAccess

variable (nonzero : ∀ address,
  (stateAt sampleRealIsZero3d real im twiddle cordic inputs
    (start + 1)).cordicRam.memory address ≠ 0)

include nonzero

theorem Undisturbed.words {i : Nat} (small : i < 128) :
    ResultAt
      (fun e => engineAt sampleRealIsZero3d real im twiddle cordic inputs
        (start + 1 + frameClocks + (cordicClocks + e)))
      (frameResult sampleRealIsZero3d real im twiddle cordic inputs start samples) i := by
  have word :=
    (undisturbed.cordicTrace starts).results_at (undisturbed.absTrace starts) nonzero small
  have same : results
      (stateAt sampleRealIsZero3d real im twiddle cordic inputs (start + 1)).cordicRam.memory
      (stateAt sampleRealIsZero3d real im twiddle cordic inputs (start + 1)).lb.fgyrusPostNormOd
      (engineAt sampleRealIsZero3d real im twiddle cordic inputs (start + 1 + frameClocks + 0)) =
        frameResult sampleRealIsZero3d real im twiddle cordic inputs start samples := by
    funext k
    rw [results, show start + 1 + frameClocks + 0 = start + 1 + frameClocks from rfl,
      undisturbed.cache_eq starts pcm]
    rfl
  rw [← same]
  exact word

theorem Undisturbed.resultWrites :
    collect (fun i => resultWrite
        (engineAt sampleRealIsZero3d real im twiddle cordic inputs (start + 1 + i)))
      (busyClocks + 1) =
        (List.range 128).map fun i => (BitVec.ofNat 7 i,
          frameResult sampleRealIsZero3d real im twiddle cordic inputs start samples i) := by
  have first : collect (fun i => resultWrite
      (engineAt sampleRealIsZero3d real im twiddle cordic inputs (start + 1 + i))) frameClocks =
        [] := by
    refine collect_eq_nil fun i before => ?_
    rw [resultWrite, (timed starts).resultQuiet (by omega)]
    rfl
  rw [busyClocks, Nat.add_assoc, collect_add, first, List.nil_append]
  have writes := (undisturbed.cordicTrace starts).resultWrites (undisturbed.absTrace starts)
    ((timed starts).resultQuiet (i := frameClocks) (Nat.le_add_right _ _))
    (fun i small => undisturbed.words starts pcm nonzero small)
  simp only [Nat.add_assoc] at writes ⊢
  exact writes

theorem Undisturbed.resultRam_eq (contents : BitVec 7 → BitVec 32) (address : BitVec 7) :
    resultRam contents (engineAt sampleRealIsZero3d real im twiddle cordic inputs)
        (start + 1 + busyClocks + 1) address =
      frameResult sampleRealIsZero3d real im twiddle cordic inputs start samples address.toNat := by
  have word := (undisturbed.cordicTrace starts).resultRam_eq (undisturbed.absTrace starts)
    ((timed starts).resultQuiet (i := frameClocks) (Nat.le_add_right _ _))
    (fun i small => undisturbed.words starts pcm nonzero small)
    (resultRam contents (engineAt sampleRealIsZero3d real im twiddle cordic inputs)
      (start + 1 + frameClocks)) address
  rw [← word, ← resultRam_shift]
  rfl

/-- It keeps the results until the next ABS pass. -/
theorem Undisturbed.resultRam_kept (contents : BitVec 7 → BitVec 32) (address : BitVec 7) :
    ∀ gap, (∀ k < gap,
        (engineAt sampleRealIsZero3d real im twiddle cordic inputs
          (start + 1 + busyClocks + k)).fsm.fsmPstate ≠ .abs) →
      resultRam contents (engineAt sampleRealIsZero3d real im twiddle cordic inputs)
          (start + 1 + busyClocks + 1 + gap) address =
        frameResult sampleRealIsZero3d real im twiddle cordic inputs start samples
          address.toNat := by
  intro gap
  induction gap with
  | zero => exact fun _ => undisturbed.resultRam_eq starts pcm nonzero contents address
  | succ gap ih =>
      intro other
      have quiet := (engine_runs sampleRealIsZero3d real im twiddle cordic inputs).resultIdle
        (other gap (Nat.lt_succ_self gap))
      rw [Nat.add_right_comm] at quiet
      rw [← Nat.add_assoc, resultRam, quiet, store_false]
      exact ih fun k before => other k (Nat.lt_succ_of_lt before)

end Frame

end Run

/-- In every run in which the host leaves the RAM windows and the post-normalisation alone
while the engine works, a frame writes the magnitudes of the transform of its samples in
the order of their addresses, and the result RAM keeps them until the next ABS pass. -/
theorem frame_results (sampleRealIsZero3d : Bool) (real im twiddle : BitVec 7 → BitVec 32)
    (cordic : BitVec 8 → BitVec 16) (inputs : Nat → Inputs)
    (undisturbed : Undisturbed sampleRealIsZero3d real im twiddle cordic inputs) (start : Nat)
    (starts : Starts (engineAt sampleRealIsZero3d real im twiddle cordic inputs)
      (engineInputsAt sampleRealIsZero3d real im twiddle cordic inputs) start)
    (samples : BitVec 7 → BitVec 32)
    (pcm : PcmRam
      (fun i => engineAt sampleRealIsZero3d real im twiddle cordic inputs (start + 1 + i))
      (fun i => engineInputsAt sampleRealIsZero3d real im twiddle cordic inputs (start + 1 + i))
      samples)
    (nonzero : ∀ address,
      (stateAt sampleRealIsZero3d real im twiddle cordic inputs (start + 1)).cordicRam.memory
        address ≠ 0)
    (contents : BitVec 7 → BitVec 32) :
    let engine := engineAt sampleRealIsZero3d real im twiddle cordic inputs
    let result := frameResult sampleRealIsZero3d real im twiddle cordic inputs start samples
    collect (fun i => resultWrite (engine (start + 1 + i))) (busyClocks + 1) =
        (List.range 128).map (fun i => (BitVec.ofNat 7 i, result i)) ∧
      ∀ gap, (∀ k < gap, (engine (start + 1 + busyClocks + k)).fsm.fsmPstate ≠ .abs) →
        ∀ address, resultRam contents engine (start + 1 + busyClocks + 1 + gap) address =
          result address.toNat :=
  ⟨undisturbed.resultWrites starts pcm nonzero,
    fun gap other address =>
      undisturbed.resultRam_kept starts pcm nonzero contents address gap other⟩

/-! ### A host that only switches the engine on -/

section ControlOnly

variable {sampleRealIsZero3d : Bool} {real im twiddle : BitVec 7 → BitVec 32}
  {cordic : BitVec 8 → BitVec 16} {inputs : Nat → Inputs}

/-- The host only ever addresses the CONTROL register, and enables the engine at once. -/
structure ControlOnly (inputs : Nat → Inputs) : Prop where
  addr : ∀ t, (inputs t).lbAddrId = 0
  wrEn : (inputs 0).lbWrEnIh = true
  wrData : ∀ t, (inputs t).lbWrDataId = 1

theorem ControlOnly.registers (control : ControlOnly inputs) (state : State) (t : Nat) :
    FgyrusLb.blockCode (lbInputs state (inputs t)) = FgyrusLb.fgyrusRegCode ∧
      FgyrusLb.regAddr (lbInputs state (inputs t)) = FgyrusLb.fgyrusControlRegAddr := by
  rw [FgyrusLb.blockCode, FgyrusLb.regAddr]
  change (inputs t).lbAddrId.extractLsb' 8 4 = _ ∧ (inputs t).lbAddrId.extractLsb' 0 8 = _
  rw [control.addr]
  decide

theorem ControlOnly.windows (control : ControlOnly inputs) (t : Nat) :
    WindowsLeft (stateAt sampleRealIsZero3d real im twiddle cordic inputs t).lb.lb2ram := by
  induction t with
  | zero => exact ⟨⟨rfl, rfl, rfl, rfl, rfl, rfl⟩, rfl, rfl⟩
  | succ t ih => exact ih.step (control.registers _ t).1

theorem ControlOnly.postNorm (control : ControlOnly inputs) (t : Nat) :
    (stateAt sampleRealIsZero3d real im twiddle cordic inputs t).lb.fgyrusPostNormOd = 0 := by
  induction t with
  | zero => rfl
  | succ t ih =>
      have other (state : State) : FgyrusLb.regWrite FgyrusLb.fgyrusPostNormRegAddr
          (lbInputs state (inputs t)) = false := by
        rw [FgyrusLb.regWrite, (control.registers state t).2, Bool.and_eq_false_iff]
        exact .inr (by decide)
      exact (if_neg (Bool.eq_false_iff.mp (other _))).trans ih

theorem ControlOnly.undisturbed (control : ControlOnly inputs) :
    Undisturbed sampleRealIsZero3d real im twiddle cordic inputs :=
  { windows := fun t _ => control.windows t
    postNorm := fun t _ => by rw [control.postNorm, control.postNorm] }

theorem ControlOnly.enabled (control : ControlOnly inputs) (t : Nat) :
    (stateAt sampleRealIsZero3d real im twiddle cordic inputs (t + 1)).lb.fgyrusEnOh = true := by
  have writes (state : State) (t : Nat) : FgyrusLb.regWrite FgyrusLb.fgyrusControlRegAddr
      (lbInputs state (inputs t)) = (inputs t).lbWrEnIh := by
    rw [FgyrusLb.regWrite, (control.registers state t).1, (control.registers state t).2,
      BEq.rfl, BEq.rfl, Bool.true_and, Bool.and_true]
    rfl
  have next (state : State) (t : Nat) : (step state (inputs t)).lb.fgyrusEnOh =
      if (inputs t).lbWrEnIh then true else state.lb.fgyrusEnOh := by
    have data : (lbInputs state (inputs t)).lbWrDataId = 1 := control.wrData t
    simp only [step, FgyrusLb.step, writes, data]
    rfl
  induction t with
  | zero => exact (next _ 0).trans (if_pos control.wrEn)
  | succ t ih =>
      refine (next _ (t + 1)).trans ?_
      rw [← stateAt, ih, ite_self]

theorem ControlOnly.tables (control : ControlOnly inputs) (t : Nat) :
    (stateAt sampleRealIsZero3d real im twiddle cordic inputs t).cordicRam.memory = cordic ∧
      (engineAt sampleRealIsZero3d real im twiddle cordic inputs t).twiddleRam.memory =
        twiddle := by
  induction t with
  | zero => exact ⟨rfl, rfl⟩
  | succ t ih =>
      have windows : WindowsLeft
          (stateAt sampleRealIsZero3d real im twiddle cordic inputs t).lb.lb2ram :=
        control.windows t
      constructor
      · exact (cordicRam_step _ windows.ramsLeft).1.trans ih.1
      · exact ((engine_runs _ _ _ _ _ _).twiddle_keep windows.toNoRamAccess).trans ih.2

theorem ControlOnly.nonzero (control : ControlOnly inputs)
    (positive : ∀ address, cordic address ≠ 0)
    (t : Nat) (address : BitVec 8) :
    (stateAt sampleRealIsZero3d real im twiddle cordic inputs t).cordicRam.memory address ≠ 0 := by
  rw [(control.tables t).1]
  exact positive address

end ControlOnly

/-! ### A ramp -/

/-- The host enables the engine and may then read its CONTROL register; the PCM RAM
answers with its addresses. -/
def rampInputs (reads : Nat → Bool) (t : Nat) : Inputs :=
  { enableInputs t with
    lbRdEnIh := reads t
    pcmRamRdDataId := ((BitVec.ofNat 7 (t - 4)).reverse).setWidth 32 }

section Ramp

variable (twiddle : BitVec 7 → BitVec 32) (cordic : BitVec 8 → BitVec 16) (reads : Nat → Bool)

theorem ramp_control : ControlOnly (rampInputs reads) :=
  { addr := fun _ => rfl
    wrEn := rfl
    wrData := fun _ => rfl }

theorem ramp_starts :
    Starts (engineAt false (fun _ => 0) (fun _ => 0) twiddle cordic (rampInputs reads))
      (engineInputsAt false (fun _ => 0) (fun _ => 0) twiddle cordic (rampInputs reads)) 1 :=
  ⟨rfl, rfl, (ramp_control reads).enabled 0⟩

theorem ramp_pcm :
    PcmRam
      (fun i => engineAt false (fun _ => 0) (fun _ => 0) twiddle cordic (rampInputs reads)
        (1 + 1 + i))
      (fun i => engineInputsAt false (fun _ => 0) (fun _ => 0) twiddle cordic (rampInputs reads)
        (1 + 1 + i))
      (fun index => index.setWidth 32) := by
  intro i inside
  have address :=
    ((timed (ramp_starts twiddle cordic reads)).copying i (by rw [copyClocks]; omega)).cntr
  change ((BitVec.ofNat 7 (1 + 1 + (i + 2) - 4)).reverse).setWidth 32 = _
  rw [FgyrusFsm.pcmRamRdAddrOd, FgyrusFsm.sampleCntrBitRevW, address,
    show 1 + 1 + (i + 2) - 4 = i by omega]

theorem ramp_frameResult (samples : BitVec 7 → BitVec 32) (address : BitVec 7) :
    frameResult false (fun _ => 0) (fun _ => 0) twiddle cordic (rampInputs reads) 1 samples
        address.toNat =
      Magnitude.result cordic 0 (FftReference.fft twiddle samples address) := by
  rw [frameResult, ((ramp_control reads).tables _).1, ← engineAt, ((ramp_control reads).tables _).2,
    (ramp_control reads).postNorm, BitVec.ofNat_toNat, BitVec.setWidth_eq]

end Ramp

theorem frame_results_ramp :
    resultRam (fun _ => 0)
        (engineAt false (fun _ => 0) (fun _ => 0) (fun _ => 0x01000000) (fun _ => 1)
          (rampInputs fun _ => false)) (1 + 1 + busyClocks + 1) =
      fun address => Magnitude.result (fun _ => 1) 0
        (FftReference.fft (fun _ => 0x01000000) (fun index => index.setWidth 32) address) := by
  funext address
  rw [← ramp_frameResult _ _ fun _ => false]
  exact (frame_results false (fun _ => 0) (fun _ => 0) (fun _ => 0x01000000) (fun _ => 1)
    (rampInputs fun _ => false) (ramp_control _).undisturbed 1 (ramp_starts _ _ _)
    (fun index => index.setWidth 32) (ramp_pcm _ _ _) ((ramp_control _).nonzero (by decide) _)
    (fun _ => 0)).2 0 (fun _ before => absurd before (Nat.not_lt_zero _)) address

end Synesthesia.FgyrusTop
