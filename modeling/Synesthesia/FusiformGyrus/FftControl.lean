/-
Control registers of `fgyrus_fsm` while the butterflies run.

Butterfly `n` takes seven clocks, counted by the one-hot phase register.  The
sample counter moves on at the end of the last phase; the offset, the stage
number and the twiddle address follow one clock later, in phase 0 of the next
butterfly.
-/

import Synesthesia.FusiformGyrus.FftSchedule

namespace Synesthesia.FgyrusFsm

open Synesthesia.FftSchedule

def hot (p : Nat) : BitVec 7 := BitVec.twoPow 7 p

theorem hot_getLsbD {p : Nat} (small : p < 7) (k : Nat) : (hot p).getLsbD k = decide (p = k) := by
  rw [hot, BitVec.getLsbD_twoPow, decide_eq_true small, Bool.true_and]

theorem rotate_hot : ∀ p < 7, rotate (hot p) = hot ((p + 1) % 7) := by
  decide

/-- The registers that select butterfly `n`. -/
structure Settled (n : Nat) (state : State) : Prop where
  pstate : state.fsmPstate = .fft
  cntr : state.sampleCntrF = cntrReg n
  offset : state.sampleOffsetF = offsetReg n
  stage : state.fftStageNoF = stageReg n
  twiddle : state.twiddleRamRdAddrOd = twiddleReg n
  noInc : state.twiddleRamIncEnF = false

/-- The clock after the last phase of butterfly `n`. -/
structure Turning (n : Nat) (state : State) : Prop where
  pstate : state.fsmPstate = .fft
  cntr : state.sampleCntrF = cntrReg (n + 1)
  offset : state.sampleOffsetF = turned n
  stage : state.fftStageNoF = stageReg n
  twiddle : state.twiddleRamRdAddrOd = twiddleReg n
  inc : state.twiddleRamIncEnF = turn n

theorem Settled.noWrap {n : Nat} {state : State} (settled : Settled n state)
    (inside : n < wings) : wrapSampleOffsetC state = false := by
  rw [wrapSampleOffsetC, settled.offset, settled.stage]
  exact (turns inside).early

theorem Settled.nxt {n : Nat} {state : State} (settled : Settled n state) :
    fftSampleValNxtC state = cntrNxt n := by
  rw [fftSampleValNxtC, fftSampleIncValW, settled.cntr, settled.stage]
  rfl

theorem incOffset_of_early {state : State} (early : state.pstVecF.getLsbD 6 = false) :
    incFftSampleOffsetC state = false := by
  rw [incFftSampleOffsetC, early, Bool.and_false]

theorem settled_hold {n : Nat} {state : State} (settled : Settled n state)
    (inside : n < wings) (early : state.pstVecF.getLsbD 6 = false) (inputs : Inputs) :
    Settled n (step state inputs) := by
  have noWrap := settled.noWrap inside
  have noInc := incOffset_of_early early
  refine
    { pstate := ?_
      cntr := ?_
      offset := ?_
      stage := ?_
      twiddle := ?_
      noInc := noInc }
  · simp only [step, nextPstate, settled.pstate, fftAllStagesOvrC, incFftStageNoC, noWrap,
      Bool.false_and, Bool.false_eq_true, reduceIte]
  · simp only [step, nextSampleCntr, settled.pstate, incFftSampleW, early, Bool.false_eq_true,
      reduceIte, settled.cntr]
  · simp only [step, nextSampleOffset, settled.pstate, noWrap, noInc, Bool.false_eq_true,
      reduceIte, settled.offset]
    exact BitVec.add_zero _
  · simp only [step, nextFftStageNo, settled.pstate, incFftStageNoC, noWrap, Bool.false_eq_true,
      reduceIte, settled.stage]
  · simp only [step, nextTwiddleRamRdAddr, settled.pstate, settled.noInc, settled.twiddle]
    exact BitVec.add_zero _

theorem settled_turn {n : Nat} {state : State} (settled : Settled n state)
    (inside : n < wings) (last : state.pstVecF.getLsbD 6 = true) (inputs : Inputs) :
    Turning n (step state inputs) := by
  have noWrap := settled.noWrap inside
  have inc : incFftSampleOffsetC state = turn n := by
    rw [incFftSampleOffsetC, settled.nxt, settled.stage, last, Bool.and_true]
    exact (turns inside).carry
  refine
    { pstate := ?_
      cntr := ?_
      offset := ?_
      stage := ?_
      twiddle := ?_
      inc := inc }
  · simp only [step, nextPstate, settled.pstate, fftAllStagesOvrC, incFftStageNoC, noWrap,
      Bool.false_and, Bool.false_eq_true, reduceIte]
  · simp only [step, nextSampleCntr, settled.pstate, incFftSampleW, last, reduceIte, settled.nxt]
    exact (turns inside).cntr
  · simp only [step, nextSampleOffset, settled.pstate, noWrap, inc, Bool.false_eq_true,
      reduceIte, settled.offset]
    rfl
  · simp only [step, nextFftStageNo, settled.pstate, incFftStageNoC, noWrap, Bool.false_eq_true,
      reduceIte, settled.stage]
  · simp only [step, nextTwiddleRamRdAddr, settled.pstate, settled.noInc, settled.twiddle]
    exact BitVec.add_zero _

theorem Turning.ovr {n : Nat} {state : State} (turning : Turning n state)
    (inside : n < wings) : fftAllStagesOvrC state = (n == wings - 1) := by
  rw [fftAllStagesOvrC, incFftStageNoC, wrapSampleOffsetC, turning.offset, turning.stage]
  exact (turns inside).last

theorem turning_settle {n : Nat} {state : State} (turning : Turning n state)
    (inside : n + 1 < wings) (early : state.pstVecF.getLsbD 6 = false) (inputs : Inputs) :
    Settled (n + 1) (step state inputs) := by
  obtain ⟨offset, stage, twiddle⟩ :=
    (turns (Nat.lt_of_succ_lt inside)).settles (Nat.lt_sub_of_add_lt inside)
  have more : (n == wings - 1) = false := by
    rw [beq_eq_false_iff_ne]
    omega
  refine
    { pstate := ?_
      cntr := ?_
      offset := ?_
      stage := ?_
      twiddle := ?_
      noInc := incOffset_of_early early }
  · simp only [step, nextPstate, turning.pstate, turning.ovr (by omega), more,
      Bool.false_eq_true, reduceIte]
  · simp only [step, nextSampleCntr, turning.pstate, incFftSampleW, early, Bool.false_eq_true,
      reduceIte, turning.cntr]
  · rw [← offset]
    simp only [step, nextSampleOffset, turning.pstate, wrapSampleOffsetC, turning.offset,
      turning.stage, incOffset_of_early early]
    rw [show turned n + bit false = turned n from BitVec.add_zero _]
  · rw [← stage]
    simp only [step, nextFftStageNo, turning.pstate, incFftStageNoC, wrapSampleOffsetC,
      turning.offset, turning.stage]
  · rw [← twiddle]
    simp only [step, nextTwiddleRamRdAddr, turning.pstate, turning.inc, turning.twiddle]

structure Clock (i : Nat) (state : State) : Prop where
  phase : state.pstVecF = hot (i % 7)
  settled : (i % 7 ≠ 0 ∨ i = 0) → Settled (i / 7) state
  turning : i % 7 = 0 → i ≠ 0 → Turning (i / 7 - 1) state

theorem Clock.pstate {i : Nat} {state : State} (clock : Clock i state) :
    state.fsmPstate = .fft := by
  by_cases inner : i % 7 ≠ 0 ∨ i = 0
  · exact (clock.settled inner).pstate
  · exact (clock.turning (by omega) (by omega)).pstate

theorem Clock.bit {i : Nat} {state : State} (clock : Clock i state) (k : Nat) :
    state.pstVecF.getLsbD k = decide (i % 7 = k) := by
  rw [clock.phase, hot_getLsbD (Nat.mod_lt _ (by decide))]

theorem clock_step {i : Nat} {state : State} (clock : Clock i state) (inside : i < 7 * wings)
    (inputs : Inputs) : Clock (i + 1) (step state inputs) := by
  have small : i / 7 < wings := by omega
  have phase : (step state inputs).pstVecF = hot ((i + 1) % 7) := by
    simp only [step, nextPstVec, clock.pstate, clock.phase]
    rw [rotate_hot _ (Nat.mod_lt _ (by decide))]
    congr 1
    omega
  by_cases inner : i % 7 ≠ 0 ∨ i = 0
  · have settled := clock.settled inner
    by_cases last : i % 7 = 6
    · have bit : state.pstVecF.getLsbD 6 = true := by
        rw [clock.bit, decide_eq_true last]
      refine
        { phase := phase
          settled := by omega
          turning := fun _ _ => ?_ }
      rw [show (i + 1) / 7 - 1 = i / 7 by omega]
      exact settled_turn settled small bit inputs
    · have bit : state.pstVecF.getLsbD 6 = false := by
        rw [clock.bit, decide_eq_false last]
      refine
        { phase := phase
          settled := fun _ => ?_
          turning := by omega }
      rw [show (i + 1) / 7 = i / 7 by omega]
      exact settled_hold settled small bit inputs
  · have turning := clock.turning (by omega) (by omega)
    have bit : state.pstVecF.getLsbD 6 = false := by
      rw [clock.bit, decide_eq_false (by omega)]
    refine
      { phase := phase
        settled := fun _ => ?_
        turning := by omega }
    rw [show (i + 1) / 7 = i / 7 - 1 + 1 by omega]
    exact turning_settle turning (by omega) bit inputs

theorem clock_end {state : State} (clock : Clock (7 * wings) state) (inputs : Inputs) :
    (step state inputs).fsmPstate = .fftWait := by
  have turning := clock.turning (by decide) (by decide)
  have ended : fftAllStagesOvrC state = true := (turning.ovr (by decide)).trans (by decide)
  simp only [step, nextPstate, turning.pstate, ended, reduceIte]

end Synesthesia.FgyrusFsm
