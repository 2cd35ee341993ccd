/-
One frame of the FFT engine, and every frame of a run.

In `DECIMATE_S` the samples are copied to the cache in bit-reversed order; the
butterfly stages follow.  The only thing a frame inherits from the frame before
it is the stage number, which always returns to its first value.
-/

import Synesthesia.FusiformGyrus.FftStages

namespace Synesthesia.FgyrusFsm

/-! ### Copying the samples -/

structure Copying (i : Nat) (state : State) : Prop where
  pstate : state.fsmPstate = .decimate
  cntr : state.sampleCntrF = BitVec.ofNat 7 i
  addressed : state.pstVecF.getLsbD 0 = decide (i ≠ 128)
  latched : state.pstVecF.getLsbD 1 = decide (1 ≤ i ∧ i ≠ 129)
  read : state.pstVecF.getLsbD 2 = decide (2 ≤ i ∧ i ≠ 130)
  noLast : state.pstVecF.getLsbD 6 = false
  ovr : state.decimateOvrF = decide (i = 130)
  realWrite : state.fftRamWrRealEnOh = decide (3 ≤ i)
  imWrite : state.fftRamWrImEnOh = decide (3 ≤ i)
  wrAddr : state.fftRamWrAddrOd = BitVec.ofNat 7 (max 2 i + 125)
  imData : state.fftRamWrImDataOd = 0
  stage : state.fftStageNoF = 1

theorem sampleCntrMaxC_ofNat {state : State} {i : Nat}
    (cntr : state.sampleCntrF = BitVec.ofNat 7 i) (small : i < 130) :
    sampleCntrMaxC state = decide (i = 127) := by
  rw [sampleCntrMaxC, cntr, Bool.eq_iff_iff, beq_iff_eq, decide_eq_true_eq]
  constructor
  · intro same
    have values := congrArg BitVec.toNat same
    rw [BitVec.toNat_ofNat, BitVec.toNat_allOnes] at values
    omega
  · rintro rfl
    rfl

theorem shiftIn_bits (vec : BitVec 7) (next : Bool) :
    let shifted := (0 : BitVec 4) ++ (vec.extractLsb' 0 2 ++ BitVec.ofBool next)
    shifted.getLsbD 0 = next ∧ shifted.getLsbD 1 = vec.getLsbD 0 ∧
      shifted.getLsbD 2 = vec.getLsbD 1 ∧ shifted.getLsbD 6 = false := by
  simp only [BitVec.getLsbD_append, BitVec.getLsbD_extractLsb', BitVec.getLsbD_ofBool]
  grind

theorem copying_step {i : Nat} {state : State} (copying : Copying i state) (early : i < 130)
    (inputs : Inputs) : Copying (i + 1) (step state inputs) := by
  have going : state.decimateOvrF = false := by
    rw [copying.ovr, decide_eq_false_iff_not]
    omega
  have shifted : (step state inputs).pstVecF =
      (0 : BitVec 4) ++ (state.pstVecF.extractLsb' 0 2 ++
        BitVec.ofBool (!sampleCntrMaxC state)) := by
    simp only [step, nextPstVec, copying.pstate, going, Bool.false_eq_true, reduceIte]
  obtain ⟨place0, place1, place2, place6⟩ := shiftIn_bits state.pstVecF (!sampleCntrMaxC state)
  refine
    { pstate := ?_
      cntr := ?_
      addressed := ?_
      latched := ?_
      read := ?_
      noLast := ?_
      ovr := ?_
      realWrite := ?_
      imWrite := ?_
      wrAddr := ?_
      imData := ?_
      stage := ?_ }
  · simp only [step, nextPstate, copying.pstate, going, Bool.false_eq_true, reduceIte]
  · simp only [step, nextSampleCntr, copying.pstate, going, Bool.false_eq_true, reduceIte,
      copying.cntr]
    exact (BitVec.ofNat_add i 1).symm
  · rw [shifted, place0, sampleCntrMaxC_ofNat copying.cntr early, ← decide_not, decide_eq_decide]
    omega
  · rw [shifted, place1, copying.addressed, decide_eq_decide]
    omega
  · rw [shifted, place2, copying.latched, decide_eq_decide]
    omega
  · rw [shifted, place6]
  · simp only [step, copying.pstate, reduceIte, copying.read, copying.latched, ← decide_not,
      ← Bool.decide_and, decide_eq_decide]
    omega
  · simp only [step, nextFftRamWrRealEn, copying.pstate, copying.read, decide_eq_decide]
    omega
  · simp only [step, nextFftRamWrImEn, copying.pstate, copying.read, decide_eq_decide]
    omega
  · simp only [step, nextFftRamWrAddr, copying.pstate, copying.wrAddr, copying.read]
    by_cases started : 2 ≤ i
    · rw [decide_eq_true (by omega), show max 2 (i + 1) + 125 = max 2 i + 125 + 1 by omega]
      exact (BitVec.ofNat_add _ 1).symm
    · rw [decide_eq_false (by omega), show max 2 (i + 1) = max 2 i by omega]
      exact BitVec.add_zero _
  · simp only [step, nextFftRamWrImData, copying.pstate]
  · simp only [step, nextFftStageNo, copying.pstate, copying.stage]

theorem copying_end {state : State} (copying : Copying 130 state) (inputs : Inputs) :
    Clock 0 (step state inputs) ∧ (step state inputs).samplesRdyOh = false ∧
      (step state inputs).fftRamWrRealEnOh = false ∧
      (step state inputs).fftRamWrImEnOh = false := by
  have ended : state.decimateOvrF = true := copying.ovr
  have settled : Settled 0 (step state inputs) := by
    refine
      { pstate := ?_
        cntr := ?_
        offset := ?_
        stage := ?_
        twiddle := ?_
        noInc := incOffset_of_early copying.noLast }
    · simp only [step, nextPstate, copying.pstate, ended, reduceIte]
    · simp only [step, nextSampleCntr, copying.pstate, ended, reduceIte]
      rfl
    · simp only [step, nextSampleOffset, copying.pstate]
      rfl
    · simp only [step, nextFftStageNo, copying.pstate, copying.stage]
      rfl
    · simp only [step, nextTwiddleRamRdAddr, copying.pstate]
      rfl
  refine ⟨⟨?_, fun _ => settled, fun _ absurd' => absurd rfl absurd'⟩, ?_, ?_, ?_⟩
  · simp only [step, nextPstVec, copying.pstate, ended, reduceIte]
    rfl
  · simp only [step, copying.pstate, reduceCtorEq, reduceIte]
  · simp only [step, nextFftRamWrRealEn, copying.pstate, copying.read]
    decide
  · simp only [step, nextFftRamWrImEn, copying.pstate, copying.read]
    decide

/-! ### The stage number between frames -/

/-- One stage is selected, and outside the stages it is the first one. -/
def StageReady (state : State) : Prop :=
  (∃ p < 7, state.fftStageNoF = hot p) ∧ (state.fsmPstate ≠ .fft → state.fftStageNoF = 1)

theorem stageReady_reset (sampleRealIsZero3d : Bool) : StageReady (reset sampleRealIsZero3d) :=
  ⟨⟨0, by decide, rfl⟩, fun _ => rfl⟩

theorem stageReady_step {state : State} (ready : StageReady state) (inputs : Inputs) :
    StageReady (step state inputs) := by
  obtain ⟨⟨p, small, stage⟩, rest⟩ := ready
  by_cases fft : state.fsmPstate = .fft
  · cases wrap : incFftStageNoC state with
    | false =>
        have kept : (step state inputs).fftStageNoF = state.fftStageNoF := by
          simp only [step, nextFftStageNo, fft, wrap, Bool.false_eq_true, reduceIte]
        have stays : (step state inputs).fsmPstate = .fft := by
          simp only [step, nextPstate, fft, fftAllStagesOvrC, wrap, Bool.false_and,
            Bool.false_eq_true, reduceIte]
        exact ⟨⟨p, small, kept.trans stage⟩, fun left => absurd stays left⟩
    | true =>
        have moved : (step state inputs).fftStageNoF = hot ((p + 1) % 7) := by
          simp only [step, nextFftStageNo, fft, wrap, reduceIte, stage]
          exact rotate_hot p small
        refine ⟨⟨(p + 1) % 7, Nat.mod_lt _ (by decide), moved⟩, fun left => ?_⟩
        have last : state.fftStageNoF.getLsbD 6 = true := by
          rw [← Bool.not_eq_false]
          intro early
          apply left
          simp only [step, nextPstate, fft, fftAllStagesOvrC, early, Bool.and_false,
            Bool.false_eq_true, reduceIte]
        rw [stage, hot_getLsbD small, decide_eq_true_eq] at last
        rw [moved, last]
        rfl
  · have kept : (step state inputs).fftStageNoF = state.fftStageNoF := by
      cases pstate : state.fsmPstate with
      | fft => exact absurd pstate fft
      | idle | decimate | fftWait | cordic | abs =>
          simp only [step, nextFftStageNo, pstate]
    refine ⟨⟨p, small, kept.trans stage⟩, fun _ => ?_⟩
    rw [kept]
    exact rest fft

theorem copying_start {state : State} {inputs : Inputs} (idle : state.fsmPstate = .idle)
    (pcmRdy : inputs.fgyrusPcmRdyIh = true) (enabled : inputs.fgyrusEnIh = true)
    (stage : state.fftStageNoF = 1) : Copying 0 (step state inputs) := by
  have vec : (step state inputs).pstVecF = 1 := by
    simp only [step, nextPstVec, idle, pcmRdy]
    rfl
  refine
    { pstate := ?_
      cntr := ?_
      addressed := by rw [vec]; decide
      latched := by rw [vec]; decide
      read := by rw [vec]; decide
      noLast := by rw [vec]; decide
      ovr := ?_
      realWrite := ?_
      imWrite := ?_
      wrAddr := ?_
      imData := ?_
      stage := ?_ }
  · simp only [step, nextPstate, idle, pcmRdy, enabled, Bool.and_self, reduceIte]
  · simp only [step, nextSampleCntr, idle]
    rfl
  · simp only [step, idle, reduceCtorEq, reduceIte]
    decide
  · simp only [step, nextFftRamWrRealEn, idle]
    decide
  · simp only [step, nextFftRamWrImEn, idle]
    decide
  · simp only [step, nextFftRamWrAddr, idle]
    rfl
  · simp only [step, nextFftRamWrImData, idle]
  · simp only [step, nextFftStageNo, idle, stage]

end Synesthesia.FgyrusFsm

namespace Synesthesia.FftEngine

open Synesthesia.Rtl
open Synesthesia.FgyrusFsm (Copying)
open Synesthesia.FgyrusLb (Lb2Ram)
open Synesthesia.FftSchedule

def copyClocks : Nat := 131

structure Opening (states : Nat → State) (inputs : Nat → Inputs) : Prop where
  runs : Runs states inputs
  start : Copying 0 (states 0).fsm

/-- The local bus keeps away from the RAMs. -/
structure Frame (states : Nat → State) (inputs : Nat → Inputs) : Prop
    extends Opening states inputs where
  quiet : ∀ i, (states i).fsm.fsmPstate ≠ .idle → NoRamAccess (inputs i).lb2ram

section Frame

variable {states : Nat → State} {inputs : Nat → Inputs}

theorem Runs.shift (runs : Runs states inputs) (first : Nat) :
    Runs (fun i => states (first + i)) (fun i => inputs (first + i)) :=
  fun t => runs (first + t)

theorem Opening.copying (opening : Opening states inputs) :
    ∀ i < copyClocks, Copying i (states i).fsm := by
  intro i
  induction i with
  | zero => exact fun _ => opening.start
  | succ i ih =>
      intro inside
      rw [copyClocks] at *
      rw [opening.runs.fsm i]
      exact FgyrusFsm.copying_step (ih (by omega)) (by omega) _

theorem Frame.access (frame : Frame states inputs) {i : Nat} (inside : i < copyClocks) :
    NoRamAccess (inputs i).lb2ram := by
  apply frame.quiet
  rw [(frame.copying i inside).pstate]
  decide

theorem Opening.noRequest (opening : Opening states inputs) {i : Nat} (inside : i < copyClocks) :
    (states (i + 1)).fsm.samplesRdyOh = false := by
  rw [opening.runs.samplesRdy, if_neg]
  rw [(opening.copying i inside).pstate]
  decide

theorem Opening.paced (opening : Opening states inputs) :
    Paced (fun i => states (copyClocks + i)) (fun i => inputs (copyClocks + i)) := by
  obtain ⟨clock, noRequest, _⟩ := FgyrusFsm.copying_end (opening.copying 130 (by decide))
    (fsmInputs (states 130) (inputs 130))
  rw [← opening.runs.fsm 130] at clock noRequest
  refine
    { runs := opening.runs.shift copyClocks
      clock := clock
      noRequest := noRequest
      still := ?_ }
  intro i early
  have empty : ∀ k < copyClocks, (states (k + 1)).fsm.samplesRdyOh = false :=
    fun k inside => opening.noRequest inside
  change (states (copyClocks + i)).wing.dataRdyOh = false
  rw [show copyClocks + i = 124 + i + 1 + 6 by rw [copyClocks]; omega, opening.runs.dataRdy,
    empty _ (by rw [copyClocks]; omega), empty _ (by rw [copyClocks]; omega)]
  rfl

theorem Frame.stages (frame : Frame states inputs) :
    Stages (fun i => states (copyClocks + i)) (fun i => inputs (copyClocks + i)) := by
  obtain ⟨_, _, real, im⟩ := FgyrusFsm.copying_end (frame.copying 130 (by decide))
    (fsmInputs (states 130) (inputs 130))
  rw [← frame.runs.fsm 130] at real im
  exact
    { toPaced := frame.paced
      quiet := fun i => frame.quiet (copyClocks + i)
      noRealWrite := real
      noImWrite := im }

/-- What the PCM RAM returns during the copy: every address is answered two
clocks later. -/
def PcmRam (states : Nat → State) (inputs : Nat → Inputs) (samples : BitVec 7 → BitVec 32) :
    Prop :=
  ∀ i < 128, (inputs (i + 2)).pcmRamRdDataId =
    samples (FgyrusFsm.pcmRamRdAddrOd (states i).fsm)

theorem Frame.wrData (frame : Frame states inputs) {samples : BitVec 7 → BitVec 32}
    (pcm : PcmRam states inputs samples) {k : Nat} (inside : k < 128) :
    (states (k + 3)).fsm.fftRamWrRealDataOd = samples (BitVec.ofNat 7 k).reverse := by
  have copying := frame.copying (k + 2) (by rw [copyClocks]; omega)
  have address := (frame.copying k (by rw [copyClocks]; omega)).cntr
  rw [frame.runs.fsm (k + 2)]
  simp only [FgyrusFsm.step, FgyrusFsm.nextFftRamWrRealData, copying.pstate]
  change (inputs (k + 2)).pcmRamRdDataId = _
  rw [pcm k inside, FgyrusFsm.pcmRamRdAddrOd, FgyrusFsm.sampleCntrBitRevW, address]

theorem Frame.copied (frame : Frame states inputs) {samples : BitVec 7 → BitVec 32}
    (pcm : PcmRam states inputs samples) :
    ∀ i ≤ copyClocks, ∀ address : BitVec 7, address.toNat + 4 ≤ i →
      cache (states i) address = FftReference.load samples address := by
  intro i
  induction i with
  | zero =>
      intro _ address early
      omega
  | succ i ih =>
      intro inside address early
      rw [copyClocks] at inside
      have copying := frame.copying i (by rw [copyClocks]; omega)
      obtain ⟨k, rfl⟩ : ∃ k, i = k + 3 := ⟨i - 3, by omega⟩
      have real : (states (k + 3)).fsm.fftRamWrRealEnOh = true := by
        rw [copying.realWrite, decide_eq_true_eq]
        omega
      have im : (states (k + 3)).fsm.fftRamWrImEnOh = true := by
        rw [copying.imWrite, decide_eq_true_eq]
        omega
      have target : (states (k + 3)).fsm.fftRamWrAddrOd = BitVec.ofNat 7 k := by
        rw [copying.wrAddr]
        apply BitVec.eq_of_toNat_eq
        rw [BitVec.toNat_ofNat, BitVec.toNat_ofNat]
        omega
      rw [frame.runs.cache_write (frame.access (by rw [copyClocks]; omega)) real im, target,
        frame.wrData pcm (by omega), copying.imData]
      by_cases same : address = BitVec.ofNat 7 k
      · rw [same, store_same]
        rfl
      · rw [store_other _ _ _ same]
        refine ih (by rw [copyClocks]; omega) address ?_
        have different : address.toNat ≠ k := by
          intro equal
          apply same
          apply BitVec.eq_of_toNat_eq
          rw [BitVec.toNat_ofNat, equal]
          omega
        omega

/-- Clocks from the start of a frame to the CORDIC pass. -/
def frameClocks : Nat := copyClocks + stageClocks

theorem Frame.cache_eq_fft (frame : Frame states inputs) {samples : BitVec 7 → BitVec 32}
    (pcm : PcmRam states inputs samples) :
    cache (states frameClocks) =
      FftReference.fft (states copyClocks).twiddleRam.memory samples := by
  have loaded : cache (states copyClocks) = FftReference.load samples := by
    funext address
    refine frame.copied pcm copyClocks (Nat.le_refl _) address ?_
    have := address.isLt
    rw [copyClocks]
    omega
  have transformed := frame.stages.cache_eq
  rw [Nat.add_zero, loaded, wingsRun_eq_fft] at transformed
  exact transformed

theorem Frame.twiddles_keep (frame : Frame states inputs) :
    ∀ i ≤ copyClocks, (states i).twiddleRam.memory = (states 0).twiddleRam.memory := by
  intro i
  induction i with
  | zero => exact fun _ => rfl
  | succ i ih =>
      intro inside
      rw [frame.runs.twiddle_keep (frame.access (by omega)), ih (by omega)]

theorem Opening.pstate (opening : Opening states inputs) {i : Nat} (inside : i < frameClocks) :
    (states i).fsm.fsmPstate = .decimate ∨ (states i).fsm.fsmPstate = .fft ∨
      (states i).fsm.fsmPstate = .fftWait := by
  by_cases copying : i < copyClocks
  · exact .inl (opening.copying i copying).pstate
  · obtain ⟨k, rfl⟩ := Nat.exists_eq_add_of_le (Nat.le_of_not_lt copying)
    have later : k < stageClocks := by
      rw [frameClocks] at inside
      omega
    exact .inr (opening.paced.computing later).pstate

theorem Opening.notAbs (opening : Opening states inputs) {i : Nat} (inside : i < frameClocks) :
    (states i).fsm.fsmPstate ≠ .abs := by
  intro abs
  have early := opening.pstate inside
  rw [abs] at early
  exact absurd early (by decide)

theorem Opening.cordic (opening : Opening states inputs) :
    (states frameClocks).fsm.fsmPstate = .cordic ∧
      ∀ i < frameClocks, (states i).fsm.fsmPstate ≠ .cordic ∧ (states i).fsm.fsmPstate ≠ .idle := by
  refine ⟨opening.paced.cordic, fun i inside => ?_⟩
  have early := opening.pstate inside
  constructor
  · intro cordic
    rw [cordic] at early
    exact absurd early (by decide)
  · intro idle
    rw [idle] at early
    exact absurd early (by decide)

end Frame

/-! ### Every frame of a run -/

def stateAt (sampleRealIsZero3d : Bool) (real im twiddle : BitVec 7 → BitVec 32)
    (inputs : Nat → Inputs) : Nat → State :=
  run step (reset sampleRealIsZero3d real im twiddle) inputs

/-- A frame starts: the sequencer is idle, enabled and told that samples are ready. -/
def Starts (states : Nat → State) (inputs : Nat → Inputs) (t : Nat) : Prop :=
  (states t).fsm.fsmPstate = .idle ∧ (inputs t).pcmRdyIh = true ∧ (inputs t).fgyrusEnIh = true

section Run

variable {states : Nat → State} {inputs : Nat → Inputs}

theorem Runs.stageReady (runs : Runs states inputs)
    (start : FgyrusFsm.StageReady (states 0).fsm) :
    ∀ t, FgyrusFsm.StageReady (states t).fsm := by
  intro t
  induction t with
  | zero => exact start
  | succ t ih =>
      rw [runs.fsm t]
      exact FgyrusFsm.stageReady_step ih _

theorem Runs.opening (runs : Runs states inputs) (ready : FgyrusFsm.StageReady (states 0).fsm)
    {t : Nat} (starts : Starts states inputs t) :
    Opening (fun i => states (t + 1 + i)) (fun i => inputs (t + 1 + i)) := by
  obtain ⟨idle, pcmRdy, enabled⟩ := starts
  have stage : (states t).fsm.fftStageNoF = 1 := by
    refine (runs.stageReady ready t).2 ?_
    rw [idle]
    decide
  refine ⟨runs.shift (t + 1), ?_⟩
  change Copying 0 (states (t + 1)).fsm
  rw [runs.fsm t]
  exact FgyrusFsm.copying_start idle pcmRdy enabled stage

theorem Runs.frame (runs : Runs states inputs) (ready : FgyrusFsm.StageReady (states 0).fsm)
    (quiet : ∀ t, (states t).fsm.fsmPstate ≠ .idle → NoRamAccess (inputs t).lb2ram)
    {t : Nat} (starts : Starts states inputs t) :
    Frame (fun i => states (t + 1 + i)) (fun i => inputs (t + 1 + i)) :=
  { toOpening := runs.opening ready starts
    quiet := fun i => quiet (t + 1 + i) }

/-- Work in progress goes back to the start of a frame. -/
theorem Runs.busy_since (runs : Runs states inputs) (idle : (states 0).fsm.fsmPstate = .idle) :
    ∀ t, (states t).fsm.fsmPstate ≠ .idle →
      ∃ start, start < t ∧ Starts states inputs start ∧
        ∀ k, start < k → k ≤ t → (states k).fsm.fsmPstate ≠ .idle := by
  intro t
  induction t with
  | zero => exact fun busy => absurd idle busy
  | succ t ih =>
      intro busy
      by_cases idleNow : (states t).fsm.fsmPstate = .idle
      · refine ⟨t, Nat.lt_succ_self t, ⟨idleNow, ?_⟩, fun k after before => ?_⟩
        · have next : (states (t + 1)).fsm.fsmPstate =
              if (inputs t).pcmRdyIh && (inputs t).fgyrusEnIh then .decimate else .idle := by
            rw [runs.fsm t]
            simp only [FgyrusFsm.step, FgyrusFsm.nextPstate, idleNow, fsmInputs]
            rfl
          rw [next] at busy
          rw [← Bool.and_eq_true]
          by_contra off
          exact busy (if_neg off)
        · rw [show k = t + 1 by omega]
          exact busy
      · obtain ⟨start, before, starts, since⟩ := ih idleNow
        refine ⟨start, by omega, starts, fun k after upto => ?_⟩
        by_cases last : k = t + 1
        · rw [last]
          exact busy
        · exact since k after (by omega)

theorem Runs.magnitude_passes (runs : Runs states inputs) {t : Nat}
    (passes : (states t).fsm.fsmPstate = .cordic ∨ (states t).fsm.fsmPstate = .abs)
    (busy : (states (t + 1)).fsm.fsmPstate ≠ .idle) :
    (states (t + 1)).fsm.fsmPstate = .abs ∨
      (states t).fsm.fsmPstate = .cordic ∧ (states (t + 1)).fsm.fsmPstate = .cordic := by
  rw [runs.fsm t] at *
  rcases passes with cordic | abs
  · simp only [FgyrusFsm.step, FgyrusFsm.nextPstate, cordic]
    split
    · exact .inl rfl
    · exact .inr ⟨trivial, rfl⟩
  · simp only [FgyrusFsm.step, FgyrusFsm.nextPstate, abs] at busy ⊢
    split
    · rename_i ended
      rw [if_pos ended] at busy
      exact absurd rfl busy
    · exact .inl rfl

theorem Runs.passes_stay (runs : Runs states inputs) {entry : Nat}
    (cordic : (states entry).fsm.fsmPstate = .cordic) :
    ∀ k, (∀ i, i ≤ k → (states (entry + i)).fsm.fsmPstate ≠ .idle) →
      (states (entry + k)).fsm.fsmPstate = .cordic ∨ (states (entry + k)).fsm.fsmPstate = .abs := by
  intro k
  induction k with
  | zero => exact fun _ => .inl cordic
  | succ k ih =>
      intro busy
      have before := ih fun i inside => busy i (by omega)
      rcases runs.magnitude_passes before (busy (k + 1) (Nat.le_refl _)) with abs | ⟨_, stays⟩
      · exact .inr abs
      · exact .inl stays

/-- `CORDIC_S` is entered only at the end of the stages of a frame. -/
theorem Runs.entry_of_frame (runs : Runs states inputs)
    (idle : (states 0).fsm.fsmPstate = .idle) (ready : FgyrusFsm.StageReady (states 0).fsm)
    {t : Nat} (outside : (states t).fsm.fsmPstate ≠ .cordic)
    (entered : (states (t + 1)).fsm.fsmPstate = .cordic) :
    ∃ start, Starts states inputs start ∧ start + 1 + frameClocks = t + 1 := by
  have busy : (states (t + 1)).fsm.fsmPstate ≠ .idle := by
    rw [entered]
    decide
  obtain ⟨start, before, starts, since⟩ := runs.busy_since idle (t + 1) busy
  obtain ⟨cordic, earlier⟩ := (runs.opening ready starts).cordic
  refine ⟨start, starts, ?_⟩
  rcases Nat.lt_trichotomy (start + 1 + frameClocks) (t + 1) with passed | now | early
  · obtain ⟨k, same⟩ := Nat.exists_eq_add_of_le (Nat.le_of_lt_succ passed)
    have passes := runs.passes_stay cordic k fun i inside => since _ (by omega) (by omega)
    rw [← same] at passes
    rcases runs.magnitude_passes passes busy with abs | ⟨stays, _⟩
    · rw [entered] at abs
      cases abs
    · exact absurd stays outside
  · exact now
  · have sooner := (earlier (t - start) (by omega)).1
    rw [show start + 1 + (t - start) = t + 1 by omega] at sooner
    exact absurd entered sooner

end Run

/-- In every run without local-bus access to its RAMs while it works, the engine
enters `CORDIC_S` once for every frame, and then its cache holds the transform of
the 128 samples of that frame. -/
theorem fftEngine_computes_fft (sampleRealIsZero3d : Bool)
    (real im twiddle : BitVec 7 → BitVec 32) (inputs : Nat → Inputs)
    (quiet : ∀ t, (stateAt sampleRealIsZero3d real im twiddle inputs t).fsm.fsmPstate ≠ .idle →
      NoRamAccess (inputs t).lb2ram) :
    let states := stateAt sampleRealIsZero3d real im twiddle inputs
    (∀ start, Starts states inputs start →
      (states (start + 1 + frameClocks)).fsm.fsmPstate = .cordic ∧
        ∀ i < frameClocks, (states (start + 1 + i)).fsm.fsmPstate ≠ .cordic) ∧
      ∀ t, (states t).fsm.fsmPstate ≠ .cordic → (states (t + 1)).fsm.fsmPstate = .cordic →
        ∃ start, Starts states inputs start ∧ start + 1 + frameClocks = t + 1 ∧
          ∀ samples,
            PcmRam (fun i => states (start + 1 + i)) (fun i => inputs (start + 1 + i)) samples →
            cache (states (t + 1)) =
              FftReference.fft (states (start + 1)).twiddleRam.memory samples := by
  intro states
  have runs : Runs states inputs := fun _ => rfl
  have ready : FgyrusFsm.StageReady (states 0).fsm := FgyrusFsm.stageReady_reset _
  refine ⟨fun start starts => ?_, fun t outside entered => ?_⟩
  · obtain ⟨cordic, earlier⟩ := (runs.opening ready starts).cordic
    exact ⟨cordic, fun i inside => (earlier i inside).1⟩
  · obtain ⟨start, starts, same⟩ := runs.entry_of_frame rfl ready outside entered
    refine ⟨start, starts, same, fun samples pcm => ?_⟩
    have frame := runs.frame ready quiet starts
    have transformed := frame.cache_eq_fft pcm
    rw [frame.twiddles_keep _ (Nat.le_refl _)] at transformed
    rw [← same]
    exact transformed

/-- A ramp in the PCM RAM, offered again and again. -/
def rampInputs (t : Nat) : Inputs :=
  { fgyrusEnIh := true
    fgyrusPostNormId := 0
    pcmRdyIh := true
    pcmRamRdDataId := ((BitVec.ofNat 7 (t - 3)).reverse).setWidth 32
    cordicRamRdDataId := 1
    lb2ram := Lb2Ram.idle
    fftRealMixed := 0
    fftImMixed := 0
    twiddleMixed := 0 }

theorem rampInputs_quiet (t : Nat) : NoRamAccess (rampInputs t).lb2ram :=
  ⟨rfl, rfl, rfl, rfl, rfl, rfl⟩

theorem fftEngine_computes_ramp :
    let states := stateAt false (fun _ => 0) (fun _ => 0) (fun _ => 0x01000000) rampInputs
    (states (1 + frameClocks)).fsm.fsmPstate = .cordic ∧
      cache (states (1 + frameClocks)) =
        FftReference.fft (states 1).twiddleRam.memory (fun index => index.setWidth 32) := by
  intro states
  have engine := fftEngine_computes_fft false (fun _ => 0) (fun _ => 0) (fun _ => 0x01000000)
    rampInputs (fun t _ => rampInputs_quiet t)
  have runs : Runs states rampInputs := fun _ => rfl
  have starts : Starts states rampInputs 0 := ⟨rfl, rfl, rfl⟩
  obtain ⟨cordic, earlier⟩ := engine.1 0 starts
  have outside := earlier (frameClocks - 1) (by decide)
  obtain ⟨start, _, same, transformed⟩ := engine.2 (0 + 1 + (frameClocks - 1)) outside cordic
  have first : start = 0 := by
    rw [show frameClocks = 3275 from rfl] at same
    omega
  subst first
  refine ⟨cordic, transformed (fun index => index.setWidth 32) fun i inside => ?_⟩
  have frame := runs.frame (FgyrusFsm.stageReady_reset _) (fun t _ => rampInputs_quiet t) starts
  have address := (frame.copying i (by rw [copyClocks]; omega)).cntr
  change ((BitVec.ofNat 7 (0 + 1 + (i + 2) - 3)).reverse).setWidth 32 = _
  rw [FgyrusFsm.pcmRamRdAddrOd, FgyrusFsm.sampleCntrBitRevW, address,
    show 0 + 1 + (i + 2) - 3 = i by omega]

end Synesthesia.FftEngine
