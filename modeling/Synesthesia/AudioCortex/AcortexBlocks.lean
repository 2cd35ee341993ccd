/-
`acortex_lb` and the four blocks behind it, as `acortex_top` wires them.

The streamed words, the serial lines and the levels of the FIFOs are inputs, so that
what is shown here holds whatever goes on in the audio block.  The host reset
returns to the four blocks through a register; the memories survive it.
-/

import Synesthesia.AudioCortex.AcortexLb
import Synesthesia.AudioCortex.I2cMaster
import Synesthesia.AudioCortex.SramPort
import Synesthesia.AudioCortex.WavPrsr
import Synesthesia.AudioCortex.Wm8731DrvrDac

namespace Synesthesia.AcortexBlocks

open Synesthesia.AcortexLb (Request Reply)
open Synesthesia.AcortexRegMap

structure State where
  lb : AcortexLb.Regs
  acortexRstLF : Bool
  i2c : I2cMaster.Regs
  sram : SramPort.State
  prsr : WavPrsr.Regs
  dac : Wm8731DrvrDac.State

structure Activity where
  adcLcapDataId : BitVec 16
  adcRcapDataId : BitVec 16
  adcCapBusyIh : Bool
  sdaReleased : Bool
  lbStDataId : BitVec 16
  lbStValidIh : Bool
  imRdReqIh : Bool
  sramEmptyIh : Bool
  sramRdDataValidIh : Bool
  sramRdDataId : BitVec 16
  pcmFfAfullIh : Bool
  hdrRamMixed : BitVec 16
  pcmFfDataValidIh : Bool
  pcmFfLdataId : BitVec 32
  pcmFfRdataId : BitVec 32
  audAdcDatId : Bool

structure Inputs where
  request : Request
  activity : Activity

/-- Power-up, with the contents of the SRAM and of the header RAM. -/
def reset (contents : BitVec 18 → BitVec 16) (header : BitVec 8 → BitVec 16) : State :=
  { lb := AcortexLb.resetRegs
    acortexRstLF := false
    i2c := I2cMaster.reset
    sram := SramPort.reset contents
    prsr := WavPrsr.reset header
    dac := Wm8731DrvrDac.reset }

/-! ### Block ports -/

def blkRdEnOh (blk : BitVec 4) (request : Request) : Bool := AcortexLb.rdenC blk request

def blkWrEnOh (blk : BitVec 4) (request : Request) : Bool := AcortexLb.wrenC blk request

def i2cInputs (inputs : Inputs) : I2cMaster.Inputs :=
  { lbRdEnIh := blkRdEnOh i2cDriver inputs.request
    lbWrEnIh := blkWrEnOh i2cDriver inputs.request
    lbAddrId := AcortexLb.blkAddrOd inputs.request
    lbWrDataId := inputs.request.lbWrDataId
    sdaReleased := inputs.activity.sdaReleased }

def sramInputs (inputs : Inputs) : SramPort.Inputs :=
  { lbRdEnIh := blkRdEnOh sram inputs.request
    lbWrEnIh := blkWrEnOh sram inputs.request
    lbAddrId := AcortexLb.blkAddrOd inputs.request
    lbWrDataId := inputs.request.lbWrDataId
    lbStDataId := inputs.activity.lbStDataId
    lbStValidIh := inputs.activity.lbStValidIh
    imRdReqIh := inputs.activity.imRdReqIh }

def prsrInputs (inputs : Inputs) : WavPrsr.Inputs :=
  { sramEmptyIh := inputs.activity.sramEmptyIh
    sramRdDataValidIh := inputs.activity.sramRdDataValidIh
    sramRdDataId := inputs.activity.sramRdDataId
    lbRdEnIh := blkRdEnOh wavPrsr inputs.request
    lbWrEnIh := blkWrEnOh wavPrsr inputs.request
    lbAddrId := AcortexLb.blkAddrOd inputs.request
    lbWrDataId := inputs.request.lbWrDataId
    pcmFfAfullIh := inputs.activity.pcmFfAfullIh
    hdrRamMixed := inputs.activity.hdrRamMixed }

def dacInputs (inputs : Inputs) : Wm8731DrvrDac.Inputs :=
  { lbRdEnIh := blkRdEnOh dacDrvr inputs.request
    lbWrEnIh := blkWrEnOh dacDrvr inputs.request
    lbAddrId := AcortexLb.blkAddrOd inputs.request
    lbWrDataId := inputs.request.lbWrDataId
    pcmFfDataValidIh := inputs.activity.pcmFfDataValidIh
    pcmFfLdataId := inputs.activity.pcmFfLdataId
    pcmFfRdataId := inputs.activity.pcmFfRdataId
    audAdcDatId := inputs.activity.audAdcDatId }

/-- The write valids of three blocks are their write enables. -/
def lbInputs (state : State) (inputs : Inputs) : AcortexLb.Inputs :=
  { request := inputs.request
    adcLcapDataId := inputs.activity.adcLcapDataId
    adcRcapDataId := inputs.activity.adcRcapDataId
    adcCapBusyIh := inputs.activity.adcCapBusyIh
    blkI2c :=
      { rdValid := state.i2c.lbRdValidOd
        wrValid := blkWrEnOh i2cDriver inputs.request
        rdData := state.i2c.lbRdDataOd }
    blkSram :=
      { rdValid := state.sram.lb.lbRdValidOd
        wrValid := state.sram.lb.lbWrValidOd
        rdData := state.sram.lb.lbRdDataOd }
    blkPrsr :=
      { rdValid := state.prsr.lbRdValidOd
        wrValid := WavPrsr.lbWrValidOd (prsrInputs inputs)
        rdData := state.prsr.lbRdDataOd }
    blkDac :=
      { rdValid := state.dac.lbRdValidOd
        wrValid := Wm8731DrvrDac.lbWrValidOd (dacInputs inputs)
        rdData := state.dac.lbRdDataOd } }

/-- The blocks run while their reset is released, now and after the edge. -/
def running (state : State) (inputs : Inputs) : Bool :=
  state.acortexRstLF && AcortexLb.acortexHostRstOl inputs.request

def step (state : State) (inputs : Inputs) : State :=
  { lb := AcortexLb.step state.lb (lbInputs state inputs)
    acortexRstLF := AcortexLb.acortexHostRstOl inputs.request
    i2c :=
      if running state inputs then I2cMaster.step state.i2c (i2cInputs inputs)
      else I2cMaster.reset
    sram :=
      if running state inputs then SramPort.step state.sram (sramInputs inputs)
      else SramPort.reset (SramDrvr.sram state.sram.path.drvr state.sram.path.memory)
    prsr :=
      if running state inputs then WavPrsr.step state.prsr (prsrInputs inputs)
      else WavPrsr.reset state.prsr.wavHdrRam.memory
    dac :=
      if running state inputs then Wm8731DrvrDac.step state.dac (dacInputs inputs)
      else Wm8731DrvrDac.reset }

theorem step_running {state : State} {inputs : Inputs} (up : running state inputs = true) :
    step state inputs =
      { lb := AcortexLb.step state.lb (lbInputs state inputs)
        acortexRstLF := true
        i2c := I2cMaster.step state.i2c (i2cInputs inputs)
        sram := SramPort.step state.sram (sramInputs inputs)
        prsr := WavPrsr.step state.prsr (prsrInputs inputs)
        dac := Wm8731DrvrDac.step state.dac (dacInputs inputs) } := by
  have released : AcortexLb.acortexHostRstOl inputs.request = true := by
    unfold running at up
    rw [Bool.and_eq_true] at up
    exact up.2
  unfold step
  rw [up, released]
  rfl

end Synesthesia.AcortexBlocks
