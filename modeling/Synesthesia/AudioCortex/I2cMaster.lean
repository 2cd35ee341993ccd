/-
`i2c_master`: two-wire master that writes one address byte and two data bytes.

A period counter paces the bits; two comparisons of its lower bits with parts of the
divider move the clock line.  While `bit_idx_f[3]` is set the master releases SDA, and
the level is then an input.
-/

import Mathlib.Logic.Basic
import Synesthesia.AudioCortex.AcortexRegMap

namespace Synesthesia.I2cMaster

open Synesthesia.AcortexRegMap

inductive Pstate where
  | idle
  | start
  | addr
  | data0
  | data1
  | stop
  deriving DecidableEq, Repr

structure Regs where
  lbRdValidOd : Bool
  lbRdDataOd : BitVec 16
  addrF : BitVec 8
  dataF : BitVec 16
  clkDivValF : BitVec 8
  i2cPrdCntrF : BitVec 8
  bitIdxF : BitVec 4
  nackDetectedF : Bool
  sdoF : Bool
  i2cSclOd : Bool
  fsmPstate : Pstate

structure Inputs where
  lbRdEnIh : Bool
  lbWrEnIh : Bool
  lbAddrId : BitVec 8
  lbWrDataId : BitVec 16
  /-- Level of SDA when the master does not drive it. -/
  sdaReleased : Bool

def reset : Regs :=
  { lbRdValidOd := false
    lbRdDataOd := 0
    addrF := 0
    dataF := 0
    clkDivValF := 0
    i2cPrdCntrF := 0
    bitIdxF := 0
    nackDetectedF := false
    sdoF := true
    i2cSclOd := true
    fsmPstate := .idle }

/-! ### Lines -/

def i2cSdaIo (regs : Regs) (sdaReleased : Bool) : Bool :=
  if regs.bitIdxF.getLsbD 3 then sdaReleased else regs.sdoF

/-! ### Combinational signals -/

def startI2cXtnC (inputs : Inputs) : Bool :=
  if inputs.lbAddrId = i2cDriverStatusRegAddr then inputs.lbWrEnIh else false

def fsmIdleC (regs : Regs) : Bool := decide (regs.fsmPstate = .idle)

def wrapPrdCntrC (regs : Regs) : Bool := regs.i2cPrdCntrF == regs.clkDivValF

def i2cPrdBy4TickC (regs : Regs) : Bool :=
  regs.i2cPrdCntrF.extractLsb' 0 6 == regs.clkDivValF.extractLsb' 2 6

def i2cPrdBy2TickC (regs : Regs) : Bool :=
  regs.i2cPrdCntrF.extractLsb' 0 7 == regs.clkDivValF.extractLsb' 1 7

/-- Bit `bit_idx_f[2:0]` of a byte, counted from its highest bit. -/
def revBit (byte : BitVec 8) (bitIdxF : BitVec 4) : Bool :=
  byte.getLsbD (7 - (bitIdxF.extractLsb' 0 3).toNat)

def sampleDataC (regs : Regs) : Bool :=
  regs.addrF.getLsbD 0 && (decide (regs.fsmPstate = .data0) || decide (regs.fsmPstate = .data1)) &&
    i2cPrdBy2TickC regs && regs.i2cSclOd

def bitSampleIdxC (regs : Regs) : Nat :=
  (if regs.fsmPstate = .data0 then 8 else 0) + (regs.bitIdxF.extractLsb' 0 3).toNat

/-! ### Registers -/

def nextLbRdData (regs : Regs) (lbAddrId : BitVec 8) : BitVec 16 :=
  if lbAddrId = i2cDriverStatusRegAddr then
    (0 : BitVec 14) ++ BitVec.ofBool regs.nackDetectedF ++ BitVec.ofBool (!fsmIdleC regs)
  else if lbAddrId = i2cDriverAddrRegAddr then regs.addrF.setWidth 16
  else if lbAddrId = i2cDriverDataRegAddr then regs.dataF
  else if lbAddrId = i2cDriverClkDivRegAddr then regs.clkDivValF.setWidth 16
  else 0xdead

def setBit (word : BitVec 16) (place : Nat) (bit : Bool) : BitVec 16 :=
  (word &&& ~~~(1#16 <<< place)) ||| ((BitVec.ofBool bit).setWidth 16 <<< place)

/-- The index `7 - bit_sample_idx_c` of the high byte lies outside the register. -/
def nextData (regs : Regs) (inputs : Inputs) : BitVec 16 :=
  if inputs.lbWrEnIh then
    if inputs.lbAddrId = i2cDriverDataRegAddr then inputs.lbWrDataId else regs.dataF
  else if sampleDataC regs && decide (bitSampleIdxC regs ≤ 7) then
    setBit regs.dataF (7 - bitSampleIdxC regs) (i2cSdaIo regs inputs.sdaReleased)
  else regs.dataF

def nextPstate (regs : Regs) (inputs : Inputs) : Pstate :=
  match regs.fsmPstate with
  | .idle => if startI2cXtnC inputs then .start else .idle
  | .start => if wrapPrdCntrC regs then .addr else .start
  | .addr =>
      if regs.bitIdxF.getLsbD 3 && wrapPrdCntrC regs then
        if regs.nackDetectedF then .stop else .data0
      else .addr
  | .data0 =>
      if regs.bitIdxF.getLsbD 3 && wrapPrdCntrC regs then
        if regs.nackDetectedF then .stop else .data1
      else .data0
  | .data1 => if regs.bitIdxF.getLsbD 3 && wrapPrdCntrC regs then .stop else .data1
  | .stop => if wrapPrdCntrC regs then .idle else .stop

def nextPrdCntr (regs : Regs) : BitVec 8 :=
  if fsmIdleC regs || wrapPrdCntrC regs then 0 else regs.i2cPrdCntrF + 1

def nextBitIdx (regs : Regs) : BitVec 4 :=
  match regs.fsmPstate with
  | .addr | .data0 | .data1 =>
      if regs.bitIdxF.getLsbD 3 && wrapPrdCntrC regs then 0
      else regs.bitIdxF + BitVec.ofNat 4 (wrapPrdCntrC regs).toNat
  | .idle | .start | .stop => 0

def nextNackDetected (regs : Regs) (inputs : Inputs) : Bool :=
  if regs.nackDetectedF then !startI2cXtnC inputs
  else regs.bitIdxF.getLsbD 3 && regs.i2cSclOd && i2cPrdBy2TickC regs &&
    i2cSdaIo regs inputs.sdaReleased

def nextSdo (regs : Regs) : Bool :=
  match regs.fsmPstate with
  | .idle => true
  | .start => false
  | .addr => !regs.bitIdxF.getLsbD 3 && revBit regs.addrF regs.bitIdxF
  | .data0 => !regs.bitIdxF.getLsbD 3 && revBit (regs.dataF.extractLsb' 8 8) regs.bitIdxF
  | .data1 => !regs.bitIdxF.getLsbD 3 && revBit (regs.dataF.extractLsb' 0 8) regs.bitIdxF
  | .stop => regs.sdoF || i2cPrdBy2TickC regs

def nextScl (regs : Regs) : Bool :=
  match regs.fsmPstate with
  | .idle => true
  | .start => regs.i2cSclOd && !i2cPrdBy2TickC regs
  | .addr | .data0 | .data1 =>
      if regs.i2cSclOd then i2cPrdBy2TickC regs || !i2cPrdBy4TickC regs
      else i2cPrdBy4TickC regs
  | .stop => true

def step (regs : Regs) (inputs : Inputs) : Regs :=
  { lbRdValidOd := inputs.lbRdEnIh
    lbRdDataOd := nextLbRdData regs inputs.lbAddrId
    addrF :=
      if inputs.lbWrEnIh = true ∧ inputs.lbAddrId = i2cDriverAddrRegAddr then
        inputs.lbWrDataId.extractLsb' 0 8
      else regs.addrF
    dataF := nextData regs inputs
    clkDivValF :=
      if inputs.lbWrEnIh = true ∧ inputs.lbAddrId = i2cDriverClkDivRegAddr then
        inputs.lbWrDataId.extractLsb' 0 8
      else regs.clkDivValF
    i2cPrdCntrF := nextPrdCntr regs
    bitIdxF := nextBitIdx regs
    nackDetectedF := nextNackDetected regs inputs
    sdoF := nextSdo regs
    i2cSclOd := nextScl regs
    fsmPstate := nextPstate regs inputs }

end Synesthesia.I2cMaster
