/-
The interrupt of `fgyrus_top` against the result writes.

`irq_oh` latches the end of the butterfly stages.  The magnitudes are written in
the ABS pass, two states later, so the interrupt always comes first.
-/

import Synesthesia.FusiformGyrus.FftFrame

namespace Synesthesia.FgyrusFsm

/-! ### Order of the states -/

/-- Position of a state within a frame. -/
def Pstate.rank : Pstate → Nat
  | .idle => 0
  | .decimate => 1
  | .fft => 2
  | .fftWait => 3
  | .cordic => 4
  | .abs => 5

/-- Until it is idle again the sequencer only moves forward. -/
theorem rank_step {state : State} {inputs : Inputs}
    (busy : (step state inputs).fsmPstate ≠ .idle) :
    state.fsmPstate.rank ≤ (step state inputs).fsmPstate.rank := by
  simp only [step, nextPstate] at busy ⊢
  cases pstate : state.fsmPstate with
  | idle => exact Nat.zero_le _
  | decimate | fft | fftWait | cordic =>
      simp only
      split <;> decide
  | abs =>
      simp only [pstate] at busy ⊢
      split
      · rename_i ended
        exact absurd (if_pos ended) busy
      · exact Nat.le_refl _

theorem fftDone_step {state : State} {inputs : Inputs}
    (done : (step state inputs).fgyrusFftDoneOh = true) :
    (step state inputs).fsmPstate = .fftWait := by
  simp only [step] at done ⊢
  by_cases fft : state.fsmPstate = .fft
  · rw [if_pos fft] at done
    simp only [nextPstate, fft, done, reduceIte]
  · rw [if_neg fft] at done
    cases done

theorem resWrEn_step {state : State} {inputs : Inputs}
    (write : (step state inputs).fftResWrEnOh = true) : state.fsmPstate = .abs := by
  simp only [step] at write
  by_cases abs : state.fsmPstate = .abs
  · exact abs
  · rw [if_neg abs] at write
    cases write

end Synesthesia.FgyrusFsm

namespace Synesthesia.FgyrusTop

open Synesthesia.FftEngine (NoRamAccess Starts Runs copyClocks)
open Synesthesia.FgyrusFsm (Pstate)
open Synesthesia.Rtl

section Run

variable (sampleRealIsZero3d : Bool) (real im twiddle : BitVec 7 → BitVec 32)
  (cordic : BitVec 8 → BitVec 16) (inputs : Nat → Inputs)

def engineAt (t : Nat) : FftEngine.State :=
  (stateAt sampleRealIsZero3d real im twiddle cordic inputs t).engine

def engineInputsAt (t : Nat) : FftEngine.Inputs :=
  engineInputs (stateAt sampleRealIsZero3d real im twiddle cordic inputs t) (inputs t)

theorem engine_runs :
    Runs (engineAt sampleRealIsZero3d real im twiddle cordic inputs)
      (engineInputsAt sampleRealIsZero3d real im twiddle cordic inputs) :=
  fun _ => rfl

/-- The frame that started at `start` is worked on in cycle `t`. -/
structure UnderWay (start t : Nat) : Prop where
  starts : Starts (engineAt sampleRealIsZero3d real im twiddle cordic inputs)
    (engineInputsAt sampleRealIsZero3d real im twiddle cordic inputs) start
  before : start < t
  busy : ∀ k, start < k → k ≤ t →
    (engineAt sampleRealIsZero3d real im twiddle cordic inputs k).fsm.fsmPstate ≠ .idle

/-- `irq_oh` rises with the clock edge at the end of cycle `t`. -/
def IrqRises (t : Nat) : Prop :=
  (stateAt sampleRealIsZero3d real im twiddle cordic inputs t).lb.irqOh = false ∧
    (stateAt sampleRealIsZero3d real im twiddle cordic inputs (t + 1)).lb.irqOh = true

/-- The frame that started at `start` has written this word of the result RAM by
cycle `t`. -/
def Written (start t : Nat) (address : BitVec 7) : Prop :=
  ∃ k, start < k ∧ k ≤ t ∧
    (engineAt sampleRealIsZero3d real im twiddle cordic inputs k).fsm.fftResWrEnOh = true ∧
    (engineAt sampleRealIsZero3d real im twiddle cordic inputs k).fsm.fftResWrAddrOd = address

variable {sampleRealIsZero3d real im twiddle cordic inputs}

theorem UnderWay.rank_le {start t : Nat}
    (underWay : UnderWay sampleRealIsZero3d real im twiddle cordic inputs start t) {k : Nat}
    (after : start ≤ k) (upto : k ≤ t) :
    (engineAt sampleRealIsZero3d real im twiddle cordic inputs k).fsm.fsmPstate.rank ≤
      (engineAt sampleRealIsZero3d real im twiddle cordic inputs t).fsm.fsmPstate.rank := by
  obtain ⟨gap, rfl⟩ := Nat.exists_eq_add_of_le upto
  induction gap with
  | zero => exact Nat.le_refl _
  | succ gap ih =>
      have busy := underWay.busy (k + gap + 1) (by omega) (Nat.le_refl _)
      have runs := engine_runs sampleRealIsZero3d real im twiddle cordic inputs
      rw [runs.fsm (k + gap)] at busy
      rw [← Nat.add_assoc, runs.fsm (k + gap)]
      refine Nat.le_trans ?_ (FgyrusFsm.rank_step busy)
      by_cases started : start < k + gap
      · refine ih ⟨underWay.starts, started, fun i later inside => ?_⟩ (Nat.le_add_right _ _)
        exact underWay.busy i later (by omega)
      · rw [show gap = 0 by omega]
        exact Nat.le_refl _

/-- The latch is set by the completion pulse of the butterfly stages. -/
theorem IrqRises.fftDone {t : Nat}
    (rises : IrqRises sampleRealIsZero3d real im twiddle cordic inputs t) :
    (engineAt sampleRealIsZero3d real im twiddle cordic inputs t).fsm.fgyrusFftDoneOh = true := by
  obtain ⟨low, high⟩ := rises
  have latch : (stateAt sampleRealIsZero3d real im twiddle cordic inputs (t + 1)).lb.irqOh =
      if (inputs t).irqRstIh then false
      else (stateAt sampleRealIsZero3d real im twiddle cordic inputs t).lb.irqOh ||
        (engineAt sampleRealIsZero3d real im twiddle cordic inputs t).fsm.fgyrusFftDoneOh := rfl
  rw [latch, low, Bool.false_or] at high
  cases clear : (inputs t).irqRstIh with
  | false =>
      rw [clear] at high
      exact high
  | true =>
      rw [clear] at high
      cases high

theorem fftWait_of_fftDone {t : Nat}
    (done : (engineAt sampleRealIsZero3d real im twiddle cordic inputs t).fsm.fgyrusFftDoneOh =
      true) :
    (engineAt sampleRealIsZero3d real im twiddle cordic inputs t).fsm.fsmPstate = .fftWait := by
  cases t with
  | zero => cases done
  | succ t =>
      have runs := engine_runs sampleRealIsZero3d real im twiddle cordic inputs
      rw [runs.fsm t] at done ⊢
      exact FgyrusFsm.fftDone_step done

theorem UnderWay.not_written {start t : Nat}
    (underWay : UnderWay sampleRealIsZero3d real im twiddle cordic inputs start t)
    (wait : (engineAt sampleRealIsZero3d real im twiddle cordic inputs t).fsm.fsmPstate =
      .fftWait) (address : BitVec 7) :
    ¬ Written sampleRealIsZero3d real im twiddle cordic inputs start (t + 1) address := by
  rintro ⟨k, after, upto, write, _⟩
  obtain ⟨k, rfl⟩ : ∃ j, k = j + 1 := ⟨k - 1, by omega⟩
  rw [(engine_runs sampleRealIsZero3d real im twiddle cordic inputs).fsm k] at write
  have order := underWay.rank_le (Nat.le_of_lt_succ after) (Nat.le_of_lt_succ upto)
  rw [FgyrusFsm.resWrEn_step write, wait] at order
  exact absurd order (by decide)

end Run

/-- Whenever `irq_oh` rises, it rises in the middle of a frame of which not one
magnitude has been written. -/
theorem irq_precedes_results (sampleRealIsZero3d : Bool) (real im twiddle : BitVec 7 → BitVec 32)
    (cordic : BitVec 8 → BitVec 16) (inputs : Nat → Inputs) (t : Nat)
    (rises : IrqRises sampleRealIsZero3d real im twiddle cordic inputs t) :
    ∃ start, UnderWay sampleRealIsZero3d real im twiddle cordic inputs start t ∧
      ∀ address, ¬ Written sampleRealIsZero3d real im twiddle cordic inputs start (t + 1)
        address := by
  have runs := engine_runs sampleRealIsZero3d real im twiddle cordic inputs
  have wait := fftWait_of_fftDone rises.fftDone
  have busy : (engineAt sampleRealIsZero3d real im twiddle cordic inputs t).fsm.fsmPstate ≠
      .idle := by
    rw [wait]
    decide
  obtain ⟨start, before, starts, since⟩ := runs.busy_since rfl t busy
  have underWay : UnderWay sampleRealIsZero3d real im twiddle cordic inputs start t :=
    ⟨starts, before, since⟩
  exact ⟨start, underWay, fun address => underWay.not_written wait address⟩

/-! ### A first frame -/

/-- The host enables the engine, and samples are offered all the time. -/
def enableInputs (t : Nat) : Inputs :=
  { pcmRdyIh := true
    pcmRamRdDataId := 0
    irqRstIh := false
    lbRdEnIh := false
    lbWrEnIh := decide (t = 0)
    lbAddrId := 0
    lbWrDataId := 1
    fftRealMixed := 0
    fftImMixed := 0
    twiddleMixed := 0
    cordicMixed := 0 }

def enableAt : Nat → State :=
  stateAt false (fun _ => 0) (fun _ => 0) (fun _ => 0) (fun _ => 1) enableInputs

def enableEngine : Nat → FftEngine.State :=
  engineAt false (fun _ => 0) (fun _ => 0) (fun _ => 0) (fun _ => 1) enableInputs

def enableEngineInputs : Nat → FftEngine.Inputs :=
  engineInputsAt false (fun _ => 0) (fun _ => 0) (fun _ => 0) (fun _ => 1) enableInputs

theorem enable_runs : Runs enableEngine enableEngineInputs :=
  engine_runs _ _ _ _ _ _

theorem enable_latch (t : Nat) :
    (enableAt (t + 1)).lb.irqOh =
      ((enableAt t).lb.irqOh || (enableEngine t).fsm.fgyrusFftDoneOh) := rfl

theorem enable_blockCode (t : Nat) :
    FgyrusLb.blockCode (lbInputs (enableAt t) (enableInputs t)) = 0 := by
  simp only [FgyrusLb.blockCode, lbInputs, enableInputs]
  decide

theorem enable_block (t : Nat) (code : BitVec 4) (other : code ≠ 0) :
    (FgyrusLb.blockCode (lbInputs (enableAt t) (enableInputs t)) == code) = false := by
  rw [enable_blockCode, beq_eq_false_iff_ne]
  exact other.symm

theorem enable_regWrite (t : Nat) (addr : BitVec 8) :
    FgyrusLb.regWrite addr (lbInputs (enableAt t) (enableInputs t)) =
      decide (t = 0 ∧ addr = FgyrusLb.fgyrusControlRegAddr) := by
  have register : FgyrusLb.regAddr (lbInputs (enableAt t) (enableInputs t)) =
      FgyrusLb.fgyrusControlRegAddr := by
    simp only [FgyrusLb.regAddr, lbInputs, enableInputs]
    decide
  rw [FgyrusLb.regWrite, enable_blockCode, register, Bool.decide_and]
  change (true && decide (t = 0) && decide (FgyrusLb.fgyrusControlRegAddr = addr)) = _
  rw [Bool.true_and, decide_eq_decide.mpr (eq_comm (a := addr))]

theorem enable_lb (t : Nat) :
    (enableAt t).lb.fgyrusEnOh = decide (t ≠ 0) ∧ NoRamAccess (enableAt t).lb.lb2ram := by
  induction t with
  | zero => exact ⟨rfl, rfl, rfl, rfl, rfl, rfl, rfl⟩
  | succ t ih =>
      obtain ⟨enable, noWrReal, noWrIm, noWrTwiddle, noRdReal, noRdIm, noRdTwiddle⟩ := ih
      have next : (enableAt (t + 1)).lb =
          FgyrusLb.step (enableAt t).lb (lbInputs (enableAt t) (enableInputs t)) := rfl
      rw [next]
      refine ⟨?_, ?_, ?_, ?_, ?_, ?_, ?_⟩
      · rw [FgyrusLb.step]
        simp only [enable_regWrite, enable]
        by_cases first : t = 0
        · rw [first]
          rfl
        · rw [if_neg (by rw [decide_eq_true_eq]; exact fun both => first both.1),
            decide_eq_true first]
          rfl
      · simp only [FgyrusLb.step, FgyrusLb.nextLb2Ram, FgyrusLb.fgyrusFftRealRamCode,
          enable_block t 1 (by decide), Bool.false_and]
      · simp only [FgyrusLb.step, FgyrusLb.nextLb2Ram, FgyrusLb.fgyrusFftImRamCode,
          enable_block t 2 (by decide), Bool.false_and]
      · simp only [FgyrusLb.step, FgyrusLb.nextLb2Ram, FgyrusLb.fgyrusTwdleRamCode,
          enable_block t 3 (by decide), Bool.false_and]
      · simp only [FgyrusLb.step, FgyrusLb.nextLb2Ram, FgyrusLb.nextRamRdEn, noRdReal,
          FgyrusLb.fgyrusFftRealRamCode, enable_block t 1 (by decide), Bool.false_and,
          Bool.false_eq_true, reduceIte]
      · simp only [FgyrusLb.step, FgyrusLb.nextLb2Ram, FgyrusLb.nextRamRdEn, noRdIm,
          FgyrusLb.fgyrusFftImRamCode, enable_block t 2 (by decide), Bool.false_and,
          Bool.false_eq_true, reduceIte]
      · simp only [FgyrusLb.step, FgyrusLb.nextLb2Ram, FgyrusLb.nextRamRdEn, noRdTwiddle,
          FgyrusLb.fgyrusTwdleRamCode, enable_block t 3 (by decide), Bool.false_and,
          Bool.false_eq_true, reduceIte]

theorem enable_starts : Starts enableEngine enableEngineInputs 1 :=
  ⟨rfl, rfl, (enable_lb 1).1⟩

theorem enable_frame :
    FftEngine.Frame (fun i => enableEngine (2 + i)) (fun i => enableEngineInputs (2 + i)) :=
  enable_runs.frame (FgyrusFsm.stageReady_reset _) (fun t _ => (enable_lb t).2)
    enable_starts

theorem enable_clock {i : Nat} (inside : i ≤ 3136) :
    FgyrusFsm.Clock i (enableEngine (133 + i)).fsm := by
  have clock := enable_frame.stages.clocks i inside
  change FgyrusFsm.Clock i (enableEngine (2 + (copyClocks + i))).fsm at clock
  rw [show 133 + i = 2 + (copyClocks + i) by rw [copyClocks]; omega]
  exact clock

theorem enable_pstate {t : Nat} (early : t ≤ 3269) :
    (enableEngine t).fsm.fsmPstate ≠ .fftWait ∧
      (1 < t → (enableEngine t).fsm.fsmPstate ≠ .idle) := by
  by_cases first : t ≤ 1
  · refine ⟨?_, fun later => absurd later (by omega)⟩
    rcases Nat.le_one_iff_eq_zero_or_eq_one.mp first with rfl | rfl
    · exact Pstate.noConfusion
    · rw [enable_starts.1]
      exact Pstate.noConfusion
  · by_cases copying : t < 133
    · have pstate := (enable_frame.copying (t - 2) (by rw [copyClocks]; omega)).pstate
      change (enableEngine (2 + (t - 2))).fsm.fsmPstate = _ at pstate
      rw [show 2 + (t - 2) = t by omega] at pstate
      rw [pstate]
      exact ⟨Pstate.noConfusion, fun _ => Pstate.noConfusion⟩
    · have pstate := (enable_clock (show t - 133 ≤ 3136 by omega)).pstate
      rw [show 133 + (t - 133) = t by omega] at pstate
      rw [pstate]
      exact ⟨Pstate.noConfusion, fun _ => Pstate.noConfusion⟩

theorem enable_irq_low {t : Nat} (early : t ≤ 3270) : (enableAt t).lb.irqOh = false := by
  induction t with
  | zero => rfl
  | succ t ih =>
      rw [enable_latch, ih (by omega), Bool.false_or, ← Bool.not_eq_true]
      intro done
      exact (enable_pstate (by omega)).1 (fftWait_of_fftDone done)

theorem enable_fftDone : (enableEngine 3270).fsm.fgyrusFftDoneOh = true := by
  have clock := enable_clock (Nat.le_refl 3136)
  have turning := clock.turning (by decide) (by decide)
  rw [enable_runs.fsm 3269]
  simp only [FgyrusFsm.step]
  rw [if_pos turning.pstate]
  exact (turning.ovr (by decide)).trans (by decide)

theorem enable_rises :
    IrqRises false (fun _ => 0) (fun _ => 0) (fun _ => 0) (fun _ => 1) enableInputs 3270 := by
  refine ⟨enable_irq_low (Nat.le_refl _), ?_⟩
  exact (enable_latch 3270).trans (by rw [enable_fftDone, Bool.or_true])

theorem enable_underWay :
    UnderWay false (fun _ => 0) (fun _ => 0) (fun _ => 0) (fun _ => 1) enableInputs 1 3270 := by
  refine ⟨enable_starts, by decide, fun k after upto => ?_⟩
  by_cases last : k = 3270
  · rw [last, fftWait_of_fftDone enable_fftDone]
    exact Pstate.noConfusion
  · exact (enable_pstate (by omega)).2 after

theorem irq_precedes_results_enable :
    IrqRises false (fun _ => 0) (fun _ => 0) (fun _ => 0) (fun _ => 1) enableInputs 3270 ∧
      ∃ start,
        UnderWay false (fun _ => 0) (fun _ => 0) (fun _ => 0) (fun _ => 1) enableInputs start
          3270 ∧
        ∀ address, ¬ Written false (fun _ => 0) (fun _ => 0) (fun _ => 0) (fun _ => 1)
          enableInputs start (3270 + 1) address :=
  ⟨enable_rises, irq_precedes_results _ _ _ _ _ _ _ enable_rises⟩

/-- The first frame raises the interrupt before its word 0 is written. -/
theorem irq_without_results :
    IrqRises false (fun _ => 0) (fun _ => 0) (fun _ => 0) (fun _ => 1) enableInputs 3270 ∧
      UnderWay false (fun _ => 0) (fun _ => 0) (fun _ => 0) (fun _ => 1) enableInputs 1 3270 ∧
      ¬ ∀ address, Written false (fun _ => 0) (fun _ => 0) (fun _ => 0) (fun _ => 1)
        enableInputs 1 3271 address :=
  ⟨enable_rises, enable_underWay, fun written =>
    enable_underWay.not_written (fftWait_of_fftDone enable_fftDone) 0 (written 0)⟩

end Synesthesia.FgyrusTop
