/-
`acortex_lb`: local bus of the audio block.

Four of the blocks behind it answer by themselves.  The capture RAMs, the capture
trigger and the audio source select are registers of this module; reads of them
are answered four clocks later, the data selected by the address on the bus then.
-/

import Synesthesia.Rtl.Clocked
import Synesthesia.AudioCortex.AcortexRegMap

namespace Synesthesia.AcortexLb

open Synesthesia.Rtl
open Synesthesia.AcortexRegMap

structure Reply where
  rdValid : Bool
  wrValid : Bool
  rdData : BitVec 16

structure Regs where
  lbRdValidOd : Bool
  lbRdDataOd : BitVec 16
  lbWrValidOd : Bool
  adcLcapRaddrOd : BitVec 8
  adcRcapRaddrOd : BitVec 8
  adcStartCapOh : Bool
  acortexAudSrcSelOd : Bool
  pstVecF : BitVec 3

structure Request where
  lbRdEnIh : Bool
  lbWrEnIh : Bool
  lbAddrId : BitVec 12
  lbWrDataId : BitVec 16

structure Inputs where
  request : Request
  adcLcapDataId : BitVec 16
  adcRcapDataId : BitVec 16
  adcCapBusyIh : Bool
  blkI2c : Reply
  blkSram : Reply
  blkPrsr : Reply
  blkDac : Reply

def resetRegs : Regs :=
  { lbRdValidOd := false
    lbRdDataOd := 0
    lbWrValidOd := false
    adcLcapRaddrOd := 0
    adcRcapRaddrOd := 0
    adcStartCapOh := false
    acortexAudSrcSelOd := false
    pstVecF := 0 }

/-! ### Decoding -/

def blkCode (request : Request) : BitVec 4 := request.lbAddrId.extractLsb' 8 4

def blkAddrOd (request : Request) : BitVec 8 := request.lbAddrId.extractLsb' 0 8

def selC (blk : BitVec 4) (request : Request) : Bool := blkCode request == blk

def rdenC (blk : BitVec 4) (request : Request) : Bool := request.lbRdEnIh && selC blk request

def wrenC (blk : BitVec 4) (request : Request) : Bool := request.lbWrEnIh && selC blk request

def acortexHostRstOl (request : Request) : Bool :=
  if blkCode request = reset then !request.lbWrEnIh else true

/-! ### Registers -/

def ownRdenC (request : Request) : Bool :=
  rdenC adcLcaptureRam request || rdenC adcRcaptureRam request ||
    rdenC adcStartCapture request || rdenC acortexAudioSrcSelReg request

def ownWrenC (request : Request) : Bool :=
  wrenC adcLcaptureRam request || wrenC adcRcaptureRam request ||
    wrenC adcStartCapture request || wrenC acortexAudioSrcSelReg request

def nextLbRdData (regs : Regs) (inputs : Inputs) : BitVec 16 :=
  if blkCode inputs.request = i2cDriver then inputs.blkI2c.rdData
  else if blkCode inputs.request = sram then inputs.blkSram.rdData
  else if blkCode inputs.request = wavPrsr then inputs.blkPrsr.rdData
  else if blkCode inputs.request = dacDrvr then inputs.blkDac.rdData
  else if blkCode inputs.request = reset then 0xcafe
  else if blkCode inputs.request = adcLcaptureRam then inputs.adcLcapDataId
  else if blkCode inputs.request = adcRcaptureRam then inputs.adcRcapDataId
  else if blkCode inputs.request = adcStartCapture then
    (BitVec.ofBool inputs.adcCapBusyIh).setWidth 16
  else if blkCode inputs.request = acortexAudioSrcSelReg then
    (BitVec.ofBool regs.acortexAudSrcSelOd).setWidth 16
  else 0xdead

def step (regs : Regs) (inputs : Inputs) : Regs :=
  let request := inputs.request
  { lbRdValidOd :=
      inputs.blkI2c.rdValid || inputs.blkSram.rdValid || inputs.blkPrsr.rdValid ||
        inputs.blkDac.rdValid || !acortexHostRstOl request || regs.pstVecF.getLsbD 2
    lbRdDataOd := nextLbRdData regs inputs
    lbWrValidOd :=
      inputs.blkI2c.wrValid || inputs.blkSram.wrValid || inputs.blkPrsr.wrValid ||
        inputs.blkDac.wrValid || !acortexHostRstOl request || ownWrenC request
    adcLcapRaddrOd :=
      if wrenC adcLcaptureRam request then request.lbWrDataId.extractLsb' 0 8
      else regs.adcLcapRaddrOd
    adcRcapRaddrOd :=
      if wrenC adcRcaptureRam request then request.lbWrDataId.extractLsb' 0 8
      else regs.adcRcapRaddrOd
    adcStartCapOh := wrenC adcStartCapture request && !regs.adcStartCapOh
    acortexAudSrcSelOd :=
      if wrenC acortexAudioSrcSelReg request then request.lbWrDataId.getLsbD 0
      else regs.acortexAudSrcSelOd
    pstVecF := regs.pstVecF.extractLsb' 0 2 ++ BitVec.ofBool (ownRdenC request) }

end Synesthesia.AcortexLb
