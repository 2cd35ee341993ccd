/-
`fgyrus_fsm`: the sequencer of the FFT engine.

One frame passes through the states in order: the samples are copied to the FFT
cache in bit-reversed order, seven stages of butterflies run in place, and the
CORDIC and ABS passes replace every bin by its magnitude.  Every register of the
source is one field, grouped as the source groups its `always` blocks.
-/

import Synesthesia.FusiformGyrus.ButterflyWing
import Synesthesia.FusiformGyrus.DividerRad4

namespace Synesthesia.FgyrusFsm

open Synesthesia.ButterflyWing (Complex)

inductive Pstate where
  | idle
  | decimate
  | fft
  | fftWait
  | cordic
  | abs
deriving DecidableEq

structure State where
  fsmPstate : Pstate
  fgyrusFftDoneOh : Bool
  fgyrusPcmDoneOh : Bool
  fgyrusBusyOh : Bool
  pstVecF : BitVec 7
  pstVecExtnF : BitVec 7
  decimateOvrF : Bool
  sampleCntrF : BitVec 7
  fftRamRdAddrOd : BitVec 7
  fftRamWrRealEnOh : Bool
  fftRamWrImEnOh : Bool
  fftRamWrAddrOd : BitVec 7
  fftRamWrRealDataOd : BitVec 32
  fftRamWrImDataOd : BitVec 32
  fftSample1F : BitVec 7
  fftSample2F : BitVec 7
  fftSample11d : BitVec 7
  fftSample21d : BitVec 7
  sampleOffsetF : BitVec 7
  fftStageNoF : BitVec 7
  sampleAOd : Complex 32
  sampleBOd : Complex 32
  samplesRdyOh : Bool
  twiddleRamRdAddrOd : BitVec 7
  twiddleRamIncEnF : Bool
  sampleRealIsZeroF : Bool
  sampleRealIsZero1d : Bool
  sampleRealIsZero2d : Bool
  sampleRealIsZero3d : Bool
  sampleRealInvF : BitVec 32
  sampleImInvF : BitVec 32
  normPreDivDataF : Bool
  preDivRealDataF : BitVec 32
  sampleRealForDivF : BitVec 32
  sampleImForDivF : BitVec 32
  divLoadF : Bool
  normPostDivDataF : Bool
  normPostDivData1d : Bool
  absValF : BitVec 32
  cordicRamRdAddrOd : BitVec 8
  divResQF : BitVec 32
  divResRdy1d : Bool
  fftResWrEnOh : Bool
  fftResWrAddrOd : BitVec 7
  fftResWrDataOd : BitVec 32
  div : DividerRad4.State

structure Inputs where
  fgyrusEnIh : Bool
  fgyrusPostNormId : BitVec 4
  fgyrusPcmRdyIh : Bool
  pcmRamRdDataId : BitVec 32
  fftRamRdDataId : Complex 32
  cordicRamRdDataId : BitVec 16
  fftDataId : Complex 32
  fftDataRdyIh : Bool

/-- The reset branch leaves `sample_real_is_zero_3d` out. -/
def reset (sampleRealIsZero3d : Bool) : State :=
  { fsmPstate := .idle
    fgyrusFftDoneOh := false
    fgyrusPcmDoneOh := false
    fgyrusBusyOh := false
    pstVecF := 0
    pstVecExtnF := 0
    decimateOvrF := false
    sampleCntrF := 0
    fftRamRdAddrOd := 0
    fftRamWrRealEnOh := false
    fftRamWrImEnOh := false
    fftRamWrAddrOd := BitVec.allOnes 7
    fftRamWrRealDataOd := 0
    fftRamWrImDataOd := 0
    fftSample1F := 0
    fftSample2F := 0
    fftSample11d := 0
    fftSample21d := 0
    sampleOffsetF := 0
    fftStageNoF := 1
    sampleAOd := ⟨0, 0⟩
    sampleBOd := ⟨0, 0⟩
    samplesRdyOh := false
    twiddleRamRdAddrOd := 1
    twiddleRamIncEnF := false
    sampleRealIsZeroF := false
    sampleRealIsZero1d := false
    sampleRealIsZero2d := false
    sampleRealIsZero3d := sampleRealIsZero3d
    sampleRealInvF := 0
    sampleImInvF := 0
    normPreDivDataF := false
    preDivRealDataF := 0
    sampleRealForDivF := BitVec.allOnes 32
    sampleImForDivF := 0
    divLoadF := false
    normPostDivDataF := false
    normPostDivData1d := false
    absValF := 0
    cordicRamRdAddrOd := 0
    divResQF := 0
    divResRdy1d := false
    fftResWrEnOh := false
    fftResWrAddrOd := 0
    fftResWrDataOd := 0
    div := DividerRad4.reset }

def bit (condition : Bool) : BitVec 7 := (BitVec.ofBool condition).setWidth 7

/-! ### Wires -/

def sampleCntrMaxC (state : State) : Bool := state.sampleCntrF == BitVec.allOnes 7

def fftSampleIncValW (state : State) : BitVec 7 :=
  state.fftStageNoF.extractLsb' 0 6 ++ BitVec.ofBool false

/-- Seven sum bits and the carry. -/
def fftSampleValNxtC (state : State) : BitVec 8 :=
  state.sampleCntrF.setWidth 8 + (fftSampleIncValW state).setWidth 8

def incFftSampleW (state : State) : Bool := state.pstVecF.getLsbD 6

def sampleCntrBitRevW (state : State) : BitVec 7 := state.sampleCntrF.reverse

def pcmRamRdAddrOd (state : State) : BitVec 7 := sampleCntrBitRevW state

def wrapSampleOffsetC (state : State) : Bool := state.sampleOffsetF == state.fftStageNoF

def incFftSampleOffsetC (state : State) : Bool :=
  ((fftSampleValNxtC state).getLsbD 7 || state.fftStageNoF.getLsbD 6) && state.pstVecF.getLsbD 6

def incFftStageNoC (state : State) : Bool := wrapSampleOffsetC state

def fftAllStagesOvrC (state : State) : Bool :=
  incFftStageNoC state && state.fftStageNoF.getLsbD 6

def divResRdyPulseC (state : State) : Bool :=
  DividerRad4.ready state.div && !state.divResRdy1d

def cordicOvrC (state : State) : Bool :=
  state.fftRamWrAddrOd == BitVec.allOnes 7 && state.fftRamWrImEnOh

def absOvrC (state : State) : Bool :=
  state.fftRamWrAddrOd == BitVec.allOnes 7 && state.fftRamWrRealEnOh

/-- The last write to the FFT cache is on its way. -/
def lastWriteC (state : State) (inputs : Inputs) : Bool :=
  state.fftRamWrRealEnOh && !inputs.fftDataRdyIh

/-! ### Next state -/

def nextPstate (state : State) (inputs : Inputs) : Pstate :=
  match state.fsmPstate with
  | .idle => if inputs.fgyrusPcmRdyIh && inputs.fgyrusEnIh then .decimate else .idle
  | .decimate => if state.decimateOvrF then .fft else .decimate
  | .fft => if fftAllStagesOvrC state then .fftWait else .fft
  | .fftWait => if lastWriteC state inputs then .cordic else .fftWait
  | .cordic => if cordicOvrC state then .abs else .cordic
  | .abs => if absOvrC state then .idle else .abs

def rotate (pstVec : BitVec 7) : BitVec 7 :=
  pstVec.extractLsb' 0 6 ++ BitVec.ofBool (pstVec.getLsbD 6)

def nextPstVec (state : State) (inputs : Inputs) : BitVec 7 :=
  match state.fsmPstate with
  | .idle => bit inputs.fgyrusPcmRdyIh
  | .decimate =>
      (0 : BitVec 4) ++
        (if state.decimateOvrF then (1 : BitVec 3)
        else state.pstVecF.extractLsb' 0 2 ++ BitVec.ofBool (!sampleCntrMaxC state))
  | .fft => rotate state.pstVecF
  | .fftWait => if lastWriteC state inputs then 1 else rotate state.pstVecF
  | .cordic =>
      if cordicOvrC state then 1
      else
        state.pstVecF.extractLsb' 4 2 ++ BitVec.ofBool (divResRdyPulseC state) ++
          state.pstVecF.extractLsb' 0 3 ++ BitVec.ofBool (divResRdyPulseC state)
  | .abs => state.pstVecF.extractLsb' 0 6 ++ BitVec.ofBool (divResRdyPulseC state)

def nextPstVecExtn (state : State) : BitVec 7 :=
  match state.fsmPstate with
  | .idle => 0
  | .cordic =>
      if cordicOvrC state then 0
      else state.pstVecExtnF.extractLsb' 0 6 ++ BitVec.ofBool (state.pstVecF.getLsbD 6)
  | .abs =>
      state.pstVecExtnF.extractLsb' 2 5 ++ state.pstVecExtnF.extractLsb' 0 1 ++
        BitVec.ofBool (divResRdyPulseC state)
  | .decimate | .fft | .fftWait => state.pstVecExtnF

def nextSampleCntr (state : State) : BitVec 7 :=
  match state.fsmPstate with
  | .decimate => if state.decimateOvrF then 0 else state.sampleCntrF + 1
  | .fft =>
      if incFftSampleW state then (fftSampleValNxtC state).extractLsb' 0 7 else state.sampleCntrF
  | .idle | .fftWait | .cordic | .abs => 0

def nextFftRamRdAddr (state : State) : BitVec 7 :=
  match state.fsmPstate with
  | .idle => 0
  | .decimate => state.fftRamRdAddrOd
  | .fft => if state.pstVecF.getLsbD 3 then state.fftSample2F else state.fftSample1F
  | .fftWait => 0
  | .cordic => if cordicOvrC state then 0 else state.fftRamRdAddrOd + bit (divResRdyPulseC state)
  | .abs => state.fftRamRdAddrOd + bit (divResRdyPulseC state)

def nextFftRamWrRealEn (state : State) (inputs : Inputs) : Bool :=
  match state.fsmPstate with
  | .idle => false
  | .decimate => state.pstVecF.getLsbD 2
  | .fft | .fftWait => inputs.fftDataRdyIh
  | .cordic => state.fftRamWrRealEnOh
  | .abs => state.pstVecExtnF.getLsbD 1

def nextFftRamWrImEn (state : State) (inputs : Inputs) : Bool :=
  match state.fsmPstate with
  | .idle => false
  | .decimate => state.pstVecF.getLsbD 2
  | .fft | .fftWait => inputs.fftDataRdyIh
  | .cordic => state.pstVecExtnF.getLsbD 0
  | .abs => state.fftRamWrImEnOh

def butterflyWrAddr (state : State) : BitVec 7 :=
  if state.pstVecF.getLsbD 5 then state.fftSample11d else state.fftSample21d

def nextFftRamWrAddr (state : State) (inputs : Inputs) : BitVec 7 :=
  match state.fsmPstate with
  | .idle => BitVec.allOnes 7
  | .decimate => state.fftRamWrAddrOd + bit (state.pstVecF.getLsbD 2)
  | .fft => butterflyWrAddr state
  | .fftWait => if lastWriteC state inputs then 0 else butterflyWrAddr state
  | .cordic => state.fftRamWrAddrOd + bit state.fftRamWrImEnOh
  | .abs => state.fftRamWrAddrOd + bit state.fftRamWrRealEnOh

def nextFftRamWrRealData (state : State) (inputs : Inputs) : BitVec 32 :=
  match state.fsmPstate with
  | .idle => 0
  | .decimate => inputs.pcmRamRdDataId
  | .fft | .fftWait => inputs.fftDataId.real
  | .cordic => state.fftRamWrRealDataOd
  | .abs => state.absValF

def nextFftRamWrImData (state : State) (inputs : Inputs) : BitVec 32 :=
  match state.fsmPstate with
  | .idle => 0
  | .decimate => 0
  | .fft | .fftWait => inputs.fftDataId.im
  | .cordic => (0 : BitVec 16) ++ inputs.cordicRamRdDataId
  | .abs => state.fftRamWrImDataOd

def nextSampleOffset (state : State) : BitVec 7 :=
  match state.fsmPstate with
  | .fft =>
      if wrapSampleOffsetC state then 0
      else state.sampleOffsetF + bit (incFftSampleOffsetC state)
  | .idle | .decimate | .fftWait | .cordic | .abs => 0

def nextFftStageNo (state : State) : BitVec 7 :=
  match state.fsmPstate with
  | .fft => if incFftStageNoC state then rotate state.fftStageNoF else state.fftStageNoF
  | .idle | .decimate | .fftWait | .cordic | .abs => state.fftStageNoF

def nextTwiddleRamRdAddr (state : State) : BitVec 7 :=
  match state.fsmPstate with
  | .fft => state.twiddleRamRdAddrOd + bit state.twiddleRamIncEnF
  | .idle | .decimate | .fftWait | .cordic | .abs => 1

def nextPreDivRealData (state : State) (inputs : Inputs) : BitVec 32 :=
  if state.normPreDivDataF then state.preDivRealDataF.extractLsb' 0 16 ++ (0 : BitVec 16)
  else if inputs.fftRamRdDataId.real.getLsbD 31 then state.sampleRealInvF
  else inputs.fftRamRdDataId.real

def nextSampleRealForDiv (state : State) (inputs : Inputs) : BitVec 32 :=
  match state.fsmPstate with
  | .cordic =>
      if inputs.fftRamRdDataId.real.getLsbD 31 then state.sampleRealInvF
      else inputs.fftRamRdDataId.real
  | .idle | .decimate | .fft | .fftWait | .abs => inputs.fftRamRdDataId.im

def nextSampleImForDiv (state : State) (inputs : Inputs) : BitVec 32 :=
  match state.fsmPstate with
  | .cordic =>
      if inputs.fftRamRdDataId.im.getLsbD 31 then state.sampleImInvF
      else inputs.fftRamRdDataId.im
  | .idle | .decimate | .fft | .fftWait | .abs => state.preDivRealDataF

def nextDivLoad (state : State) : Bool :=
  match state.fsmPstate with
  | .cordic => state.pstVecF.getLsbD 3
  | .idle | .decimate | .fft | .fftWait | .abs => state.pstVecF.getLsbD 6

def nextNormPostDivData (state : State) : Bool :=
  if state.pstVecExtnF.getLsbD 1 || state.fsmPstate != .abs then false
  else if state.pstVecF.getLsbD 5 then !state.normPreDivDataF
  else state.normPostDivDataF

def postNorm (config : BitVec 4) (word : BitVec 32) : BitVec 32 :=
  if config = 1 then word >>> 4
  else if config = 2 then word >>> 7
  else if config = 3 then word >>> 8
  else if config = 4 then word >>> 12
  else if config = 5 then word >>> 16
  else word

def step (state : State) (inputs : Inputs) : State :=
  { fsmPstate := nextPstate state inputs
    fgyrusFftDoneOh := if state.fsmPstate = .fft then fftAllStagesOvrC state else false
    fgyrusPcmDoneOh := if state.fsmPstate = .abs then absOvrC state else false
    fgyrusBusyOh := if state.fsmPstate = .idle then false else true
    pstVecF := nextPstVec state inputs
    pstVecExtnF := nextPstVecExtn state
    decimateOvrF :=
      if state.fsmPstate = .decimate then state.pstVecF.getLsbD 2 && !state.pstVecF.getLsbD 1
      else false
    sampleCntrF := nextSampleCntr state
    fftRamRdAddrOd := nextFftRamRdAddr state
    fftRamWrRealEnOh := nextFftRamWrRealEn state inputs
    fftRamWrImEnOh := nextFftRamWrImEn state inputs
    fftRamWrAddrOd := nextFftRamWrAddr state inputs
    fftRamWrRealDataOd := nextFftRamWrRealData state inputs
    fftRamWrImDataOd := nextFftRamWrImData state inputs
    fftSample1F := state.sampleCntrF + state.sampleOffsetF
    fftSample2F := state.fftSample1F + state.fftStageNoF
    fftSample11d := if state.pstVecF.getLsbD 6 then state.fftSample1F else state.fftSample11d
    fftSample21d := if state.pstVecF.getLsbD 6 then state.fftSample2F else state.fftSample21d
    sampleOffsetF := nextSampleOffset state
    fftStageNoF := nextFftStageNo state
    sampleAOd := if state.pstVecF.getLsbD 5 then inputs.fftRamRdDataId else state.sampleAOd
    sampleBOd := if state.pstVecF.getLsbD 6 then inputs.fftRamRdDataId else state.sampleBOd
    samplesRdyOh := if state.fsmPstate = .fft then state.pstVecF.getLsbD 6 else false
    twiddleRamRdAddrOd := nextTwiddleRamRdAddr state
    twiddleRamIncEnF := incFftSampleOffsetC state
    sampleRealIsZeroF := inputs.fftRamRdDataId.real == 0
    sampleRealIsZero1d := state.sampleRealIsZeroF
    sampleRealIsZero2d := state.sampleRealIsZero1d
    sampleRealIsZero3d := state.sampleRealIsZero2d
    sampleRealInvF := ~~~inputs.fftRamRdDataId.real + 1
    sampleImInvF := ~~~inputs.fftRamRdDataId.im + 1
    normPreDivDataF :=
      state.pstVecF.getLsbD 4 && state.preDivRealDataF.extractLsb' 16 16 == 0
    preDivRealDataF := nextPreDivRealData state inputs
    sampleRealForDivF := nextSampleRealForDiv state inputs
    sampleImForDivF := nextSampleImForDiv state inputs
    divLoadF := nextDivLoad state
    normPostDivDataF := nextNormPostDivData state
    normPostDivData1d := state.normPostDivDataF && divResRdyPulseC state
    absValF :=
      if state.normPostDivData1d then state.divResQF.extractLsb' 0 16 ++ (0 : BitVec 16)
      else state.divResQF
    cordicRamRdAddrOd :=
      if state.divResQF.extractLsb' 8 24 != 0 || state.sampleRealIsZero3d then 0xff
      else state.divResQF.extractLsb' 0 8
    divResQF := DividerRad4.q state.div
    divResRdy1d := DividerRad4.ready state.div
    fftResWrEnOh := if state.fsmPstate = .abs then state.fftRamWrRealEnOh else false
    fftResWrAddrOd := if state.fsmPstate = .abs then state.fftRamWrAddrOd else state.fftResWrAddrOd
    fftResWrDataOd :=
      if state.fsmPstate = .abs then postNorm inputs.fgyrusPostNormId state.fftRamWrRealDataOd
      else state.fftResWrDataOd
    div := DividerRad4.step state.div
      { load := state.divLoadF
        n := state.sampleImForDivF
        d := state.sampleRealForDivF } }

end Synesthesia.FgyrusFsm
