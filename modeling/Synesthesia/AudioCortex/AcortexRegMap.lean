/-
Address map of the audio block (`acortex_reg_map.v`).
-/

import Mathlib.Logic.Basic

namespace Synesthesia.AcortexRegMap

/-! ### Block codes -/

def i2cDriver : BitVec 4 := 0
def sram : BitVec 4 := 1
def wavPrsr : BitVec 4 := 2
def dacDrvr : BitVec 4 := 3
def adcLcaptureRam : BitVec 4 := 4
def adcRcaptureRam : BitVec 4 := 5
def adcStartCapture : BitVec 4 := 6
def acortexAudioSrcSelReg : BitVec 4 := 7
def reset : BitVec 4 := 8

/-! ### I2C driver -/

def i2cDriverStatusRegAddr : BitVec 8 := 0
def i2cDriverAddrRegAddr : BitVec 8 := 1
def i2cDriverDataRegAddr : BitVec 8 := 2
def i2cDriverClkDivRegAddr : BitVec 8 := 3

/-! ### SRAM -/

def sramStatusRegAddr : BitVec 8 := 0
def sramAccCtrlRegAddr : BitVec 8 := 1
def sramAccAddrHRegAddr : BitVec 8 := 2
def sramAccAddrLRegAddr : BitVec 8 := 3
def sramAccDataRegAddr : BitVec 8 := 4

/-! ### WAV parser -/

def prsrCtrlRegAddr : BitVec 8 := 0
def prsrFsmPstateRegAddr : BitVec 8 := 1
def prsrBytesReadHRegAddr : BitVec 8 := 2
def prsrBytesReadLRegAddr : BitVec 8 := 3
def prsrHdrRamRdAddrRegAddr : BitVec 8 := 4
def prsrHdrRamRdDataRegAddr : BitVec 8 := 5

/-! ### DAC driver -/

def dacDrvrCtrlRegAddr : BitVec 8 := 0
def dacDrvrStatusRegAddr : BitVec 8 := 1
def dacDrvrFsDivRegAddr : BitVec 8 := 2
def dacDrvrMclkSelRegAddr : BitVec 8 := 3

end Synesthesia.AcortexRegMap
