/-
`wm8731_drvr_dac`: serialiser of the audio codec.

A one-hot ring of eight clocks paces the bit clock.  A frame is one bit period of
`START_S`, one channel after the other, and then a wait for the sample period.
The multiplexer of the master clock is in `ClkMux`: nothing here reads its output.
-/

import Synesthesia.Rtl.Clocked
import Synesthesia.AudioCortex.AcortexRegMap

namespace Synesthesia.Wm8731DrvrDac

open Synesthesia.Rtl
open Synesthesia.AcortexRegMap

inductive Pstate where
  | idle
  | start
  | lchannel
  | rchannel
  | waitForFs
  deriving DecidableEq, Repr

structure State where
  lbRdValidOd : Bool
  lbRdDataOd : BitVec 16
  dacDrvrEnF : Bool
  adcDrvrEnF : Bool
  fsDivValF : BitVec 11
  mclkSelF : BitVec 2
  mclkEnF : Bool
  bpsF : Bool
  audBlckOd : Bool
  bclkGenVec : BitVec 8
  fsmPstate : Pstate
  pcmFfRdAckOh : Bool
  fsCntr : BitVec 10
  ldataShiftReg : BitVec 32
  rdataShiftReg : BitVec 32
  audDacDatOd : Bool
  audDacLrcOd : Bool
  audAdcLrcOd : Bool
  adc2fgyrusPcmValidOh : Bool
  adc2fgyrusLpcmOd : BitVec 32
  adc2fgyrusRpcmOd : BitVec 32
  updateAdcDataF : Bool
  chnnlDone1d : Bool
  chnnlDone2d : Bool

structure Inputs where
  lbRdEnIh : Bool
  lbWrEnIh : Bool
  lbAddrId : BitVec 8
  lbWrDataId : BitVec 16
  pcmFfDataValidIh : Bool
  pcmFfLdataId : BitVec 32
  pcmFfRdataId : BitVec 32
  audAdcDatId : Bool

/-- Samples are 32 bits wide unless the host says otherwise. -/
def reset : State :=
  { lbRdValidOd := false
    lbRdDataOd := 0
    dacDrvrEnF := false
    adcDrvrEnF := false
    fsDivValF := 0
    mclkSelF := 0
    mclkEnF := false
    bpsF := true
    audBlckOd := false
    bclkGenVec := 1
    fsmPstate := .idle
    pcmFfRdAckOh := false
    fsCntr := 0
    ldataShiftReg := 0
    rdataShiftReg := 0
    audDacDatOd := false
    audDacLrcOd := false
    audAdcLrcOd := false
    adc2fgyrusPcmValidOh := false
    adc2fgyrusLpcmOd := 0
    adc2fgyrusRpcmOd := 0
    updateAdcDataF := false
    chnnlDone1d := false
    chnnlDone2d := false }

/-! ### Local bus -/

def lbWrValidOd (inputs : Inputs) : Bool := inputs.lbWrEnIh

def audDacRdyW (state : State) : Bool := decide (state.fsmPstate = .idle)

def nextLbRdData (state : State) (lbAddrId : BitVec 8) : BitVec 16 :=
  if lbAddrId = dacDrvrCtrlRegAddr then
    (0 : BitVec 13) ++ BitVec.ofBool state.bpsF ++ BitVec.ofBool state.adcDrvrEnF ++
      BitVec.ofBool state.dacDrvrEnF
  else if lbAddrId = dacDrvrStatusRegAddr then
    (0 : BitVec 15) ++ BitVec.ofBool (audDacRdyW state)
  else if lbAddrId = dacDrvrFsDivRegAddr then (0 : BitVec 5) ++ state.fsDivValF
  else if lbAddrId = dacDrvrMclkSelRegAddr then
    BitVec.ofBool state.mclkEnF ++ (0 : BitVec 13) ++ state.mclkSelF
  else 0xdead

def lbWrites (inputs : Inputs) (address : BitVec 8) : Bool :=
  inputs.lbWrEnIh && decide (inputs.lbAddrId = address)

/-! ### Bit clock -/

def rotate (bclkGenVec : BitVec 8) : BitVec 8 :=
  bclkGenVec.extractLsb' 0 7 ++ BitVec.ofBool (bclkGenVec.getLsbD 7)

def nextAudBlck (state : State) : Bool :=
  if !state.dacDrvrEnF && !state.adcDrvrEnF then false
  else if state.bclkGenVec.getLsbD 3 then true
  else if state.bclkGenVec.getLsbD 7 then false
  else state.audBlckOd

/-! ### Sequencer -/

/-- The last bit of a channel is on its way. -/
def chnnlDoneC (state : State) : Bool :=
  match state.fsmPstate with
  | .lchannel =>
      if state.bpsF then
        if state.fsCntr = 32 then state.bclkGenVec.getLsbD 7 else false
      else if state.fsCntr = 16 then state.bclkGenVec.getLsbD 7 else false
  | .rchannel =>
      if state.bpsF then
        if state.fsCntr = 64 then state.bclkGenVec.getLsbD 7 else false
      else if state.fsCntr = 32 then state.bclkGenVec.getLsbD 7 else false
  | .idle | .start | .waitForFs => false

/-- The counter has ten bits, the divider eleven. -/
def fsCntrRstC (state : State) : Bool := state.fsCntr.setWidth 11 == state.fsDivValF

def nextPstate (state : State) (inputs : Inputs) : Pstate :=
  match state.fsmPstate with
  | .idle =>
      if state.bclkGenVec.getLsbD 7 then
        if (state.dacDrvrEnF && inputs.pcmFfDataValidIh) || state.adcDrvrEnF then .start
        else .idle
      else .idle
  | .start => if state.bclkGenVec.getLsbD 7 then .lchannel else .start
  | .lchannel => if chnnlDoneC state then .rchannel else .lchannel
  | .rchannel => if chnnlDoneC state then .waitForFs else .rchannel
  | .waitForFs => if fsCntrRstC state then .idle else .waitForFs

def nextPcmFfRdAck (state : State) (inputs : Inputs) : Bool :=
  if state.fsmPstate = .start then
    inputs.pcmFfDataValidIh && state.bclkGenVec.getLsbD 6 && state.dacDrvrEnF
  else false

def nextFsCntr (state : State) : BitVec 10 :=
  if state.fsmPstate = .idle then 0
  else state.fsCntr + BitVec.ofNat 10 (state.bclkGenVec.getLsbD 7).toNat

/-! ### Data -/

def shiftOut (word : BitVec 32) : BitVec 32 := word.extractLsb' 0 31 ++ BitVec.ofBool false

def nextLdataShiftReg (state : State) (inputs : Inputs) : BitVec 32 :=
  match state.fsmPstate with
  | .start => if state.pcmFfRdAckOh then inputs.pcmFfLdataId else state.ldataShiftReg
  | .lchannel =>
      if state.bclkGenVec.getLsbD 7 then shiftOut state.ldataShiftReg else state.ldataShiftReg
  | .rchannel => state.ldataShiftReg
  | .idle | .waitForFs => 0

def nextRdataShiftReg (state : State) (inputs : Inputs) : BitVec 32 :=
  match state.fsmPstate with
  | .start => if state.pcmFfRdAckOh then inputs.pcmFfRdataId else state.rdataShiftReg
  | .lchannel => state.rdataShiftReg
  | .rchannel =>
      if state.bclkGenVec.getLsbD 7 then shiftOut state.rdataShiftReg else state.rdataShiftReg
  | .idle | .waitForFs => 0

def nextAudDacDat (state : State) : Bool :=
  if state.dacDrvrEnF then
    if state.bpsF then
      if state.fsmPstate = .lchannel then state.ldataShiftReg.getLsbD 31
      else state.rdataShiftReg.getLsbD 31
    else if state.fsmPstate = .lchannel then state.ldataShiftReg.getLsbD 15
    else state.rdataShiftReg.getLsbD 15
  else false

def extendLower (word : BitVec 32) : BitVec 32 := (word.extractLsb' 0 16).signExtend 32

/-- An ADC word of the channel whose state is `channel`. -/
def nextAdcPcm (state : State) (channel : Pstate) (pcm : BitVec 32) (audAdcDatId : Bool) :
    BitVec 32 :=
  if state.adcDrvrEnF then
    if state.updateAdcDataF then extendLower pcm
    else if state.fsmPstate = channel ∧ state.bclkGenVec.getLsbD 4 = true then
      pcm.extractLsb' 0 31 ++ BitVec.ofBool audAdcDatId
    else pcm
  else pcm

def step (state : State) (inputs : Inputs) : State :=
  { lbRdValidOd := inputs.lbRdEnIh
    lbRdDataOd := nextLbRdData state inputs.lbAddrId
    dacDrvrEnF :=
      if lbWrites inputs dacDrvrCtrlRegAddr then inputs.lbWrDataId.getLsbD 0
      else state.dacDrvrEnF
    adcDrvrEnF :=
      if lbWrites inputs dacDrvrCtrlRegAddr then inputs.lbWrDataId.getLsbD 1
      else state.adcDrvrEnF
    fsDivValF :=
      if lbWrites inputs dacDrvrFsDivRegAddr then inputs.lbWrDataId.extractLsb' 0 11
      else state.fsDivValF
    mclkSelF :=
      if lbWrites inputs dacDrvrMclkSelRegAddr then inputs.lbWrDataId.extractLsb' 0 2
      else state.mclkSelF
    mclkEnF :=
      if lbWrites inputs dacDrvrMclkSelRegAddr then inputs.lbWrDataId.getLsbD 15
      else state.mclkEnF
    bpsF :=
      if lbWrites inputs dacDrvrCtrlRegAddr then inputs.lbWrDataId.getLsbD 2 else state.bpsF
    audBlckOd := nextAudBlck state
    bclkGenVec := rotate state.bclkGenVec
    fsmPstate := nextPstate state inputs
    pcmFfRdAckOh := nextPcmFfRdAck state inputs
    fsCntr := nextFsCntr state
    ldataShiftReg := nextLdataShiftReg state inputs
    rdataShiftReg := nextRdataShiftReg state inputs
    audDacDatOd := nextAudDacDat state
    audDacLrcOd := state.dacDrvrEnF && decide (state.fsmPstate = .start)
    audAdcLrcOd := state.adcDrvrEnF && decide (state.fsmPstate = .start)
    adc2fgyrusPcmValidOh :=
      state.adcDrvrEnF && (decide (state.fsmPstate = .waitForFs) && state.chnnlDone2d)
    adc2fgyrusLpcmOd := nextAdcPcm state .lchannel state.adc2fgyrusLpcmOd inputs.audAdcDatId
    adc2fgyrusRpcmOd := nextAdcPcm state .rchannel state.adc2fgyrusRpcmOd inputs.audAdcDatId
    updateAdcDataF :=
      state.adcDrvrEnF &&
        (decide (state.fsmPstate = .rchannel) && chnnlDoneC state && !state.bpsF)
    chnnlDone1d := chnnlDoneC state
    chnnlDone2d := state.chnnlDone1d }

/-! ### The ring -/

theorem rotate_getLsbD {vec : BitVec 8} {phase : Nat} (small : phase < 8)
    (hot : ∀ k < 8, vec.getLsbD k = decide (phase = k)) :
    ∀ k < 8, (rotate vec).getLsbD k = decide ((phase + 1) % 8 = k) := by
  intro k inside
  rw [rotate, BitVec.getLsbD_append, BitVec.getLsbD_ofBool]
  rcases Nat.eq_zero_or_pos k with zero | later
  · subst zero
    rw [if_pos Nat.zero_lt_one, hot 7 (by decide), decide_eq_true rfl, Bool.true_and,
      decide_eq_decide]
    omega
  · rw [if_neg (by omega), BitVec.getLsbD_extractLsb', decide_eq_true (by omega), Bool.true_and,
      Nat.zero_add, hot (k - 1) (by omega), decide_eq_decide]
    omega

section Run

variable (inputs : Nat → Inputs)

def stateAt : Nat → State := run step reset inputs

theorem stateAt_succ (t : Nat) : stateAt inputs (t + 1) = step (stateAt inputs t) (inputs t) := rfl

theorem ring_eq (t : Nat) :
    ∀ k < 8, (stateAt inputs t).bclkGenVec.getLsbD k = decide (t % 8 = k) := by
  induction t with
  | zero =>
      intro k inside
      have known : ∀ k < 8, (1 : BitVec 8).getLsbD k = decide (0 % 8 = k) := by
        decide
      exact known k inside
  | succ t ih =>
      intro k inside
      rw [stateAt_succ]
      have turned := rotate_getLsbD (Nat.mod_lt t (by decide)) ih k inside
      rw [step, turned, decide_eq_decide]
      omega

end Run

end Synesthesia.Wm8731DrvrDac
