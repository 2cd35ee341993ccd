/-
`codec.c`: configuration of the audio codec over I2C.

The codec cannot be read back, so the software keeps a copy of its registers as
the words that were sent last.  The codec itself is modelled by its ten data
registers; whether a transaction is acknowledged is an input, one answer for
each transaction.
-/

import Mathlib.Data.Fin.VecNotation
import Mathlib.Logic.Function.Basic

namespace Synesthesia.Codec

inductive I2cRes where
  | i2cOk
  | i2cNackDetected
  | i2cBusy
  | i2cIdle
  deriving DecidableEq

inductive Bps where
  | bps32
  | bps16

inductive Fs where
  | fs8khz
  | fs32khz
  | fs44khz
  | fs48khz
  | fs88khz
  | fs96khz

/-- `codec_shadow_reg`: register address and value of each entry. -/
abbrev Shadow := Fin 11 → BitVec 16

abbrev Regs := Fin 10 → BitVec 9

structure State where
  codecShadowReg : Shadow
  codec : Regs
  /-- Device address and word of every transaction so far. -/
  sent : List (BitVec 8 × BitVec 16)

/-! ### The codec -/

def resetRegister : BitVec 7 := 15

def codecDefaults : Regs :=
  ![0x97, 0x97, 0x79, 0x79, 0x0a, 0x08, 0x9f, 0x0a, 0x00, 0x00]

/-- The upper seven bits of a word address a register, the lower nine are its value. -/
def codecWrite (codec : Regs) (word : BitVec 16) : Regs :=
  if word.extractLsb' 9 7 = resetRegister then codecDefaults
  else fun i => if word.extractLsb' 9 7 = BitVec.ofNat 7 i then word.extractLsb' 0 9 else codec i

/-! ### Register map -/

def codecI2cWriteAddr : BitVec 8 := 0x34

def codecLeftLineInRegIdx : Fin 11 := 0
def codecRightLineInRegIdx : Fin 11 := 1
def codecLeftHpOutRegIdx : Fin 11 := 2
def codecRightHpOutRegIdx : Fin 11 := 3
def codecDigitalAudPathRegIdx : Fin 11 := 5
def codecPowerDownRegIdx : Fin 11 := 6
def codecDigitalAudIfFmtRegIdx : Fin 11 := 7
def codecActiveCtrlRegIdx : Fin 11 := 9
def codecResetIdx : Fin 11 := 10

/-- Place of a field: entry, offset and mask. -/
structure Field where
  idx : Fin 11
  offst : BitVec 8
  msk : BitVec 8

def codecDacSel : Field := ⟨4, 4, 0x1⟩
def codecAdcHpd : Field := ⟨5, 0, 0x1⟩
def codecDacMu : Field := ⟨5, 3, 0x1⟩
def codecLineinpd : Field := ⟨6, 0, 0x1⟩
def codecAdcpd : Field := ⟨6, 2, 0x1⟩
def codecDacpd : Field := ⟨6, 3, 0x1⟩
def codecOutpd : Field := ⟨6, 4, 0x1⟩
def codecPwroff : Field := ⟨6, 7, 0x1⟩
def codecIwl : Field := ⟨7, 2, 0x3⟩
def codecSr : Field := ⟨8, 2, 0xf⟩
def codecActive : Field := ⟨9, 0, 0x1⟩

inductive CodecPwrOnOff where
  | on
  | off

def CodecPwrOnOff.val : CodecPwrOnOff → BitVec 8
  | .on => 0x0
  | .off => 0x1

inductive CodecIwl where
  | iwl16
  | iwl20
  | iwl24
  | iwl32

def CodecIwl.val : CodecIwl → BitVec 8
  | .iwl16 => 0x0
  | .iwl20 => 0x1
  | .iwl24 => 0x2
  | .iwl32 => 0x3

def bps2iwlLookup : Bps → CodecIwl
  | .bps32 => .iwl32
  | .bps16 => .iwl16

inductive SrSel where
  | fs8khzSr
  | fs32khzSr
  | fs44khzSr
  | fs48khzSr
  | fs88khzSr
  | fs96khzSr

def SrSel.val : SrSel → BitVec 8
  | .fs8khzSr => 0x3
  | .fs32khzSr => 0x6
  | .fs44khzSr => 0x8
  | .fs48khzSr => 0x0
  | .fs88khzSr => 0xf
  | .fs96khzSr => 0x7

def fs2srLookup : Fs → SrSel
  | .fs8khz => .fs8khzSr
  | .fs32khz => .fs32khzSr
  | .fs44khz => .fs44khzSr
  | .fs48khz => .fs48khzSr
  | .fs88khz => .fs88khzSr
  | .fs96khz => .fs96khzSr

/-! ### Transactions -/

section Functions

variable (acks : Nat → Bool)

/-- The last bit of the device address is forced to zero. -/
def i2cXtnWrite16 (addr : BitVec 8) (data : BitVec 16) (state : State) : I2cRes × State :=
  if acks state.sent.length then
    (.i2cOk,
      { state with
        codec := codecWrite state.codec data
        sent := state.sent ++ [(addr &&& 0xfe, data)] })
  else (.i2cNackDetected, { state with sent := state.sent ++ [(addr &&& 0xfe, data)] })

def sendShadow (idx : Fin 11) (state : State) : I2cRes × State :=
  i2cXtnWrite16 acks codecI2cWriteAddr (state.codecShadowReg idx) state

def shadowDefaults : Shadow :=
  ![0x97, 0x297, 0x479, 0x679, 0x80a, 0xa08, 0xc9f, 0xe0a, 0x1000, 0x1200, 0x1e00]

def codecReset (state : State) : I2cRes × State :=
  sendShadow acks codecResetIdx { state with codecShadowReg := shadowDefaults }

def setShadow (idx : Fin 11) (word : BitVec 16) (state : State) : I2cRes × State :=
  sendShadow acks idx
    { state with codecShadowReg := Function.update state.codecShadowReg idx word }

/-- `msk << offst` as a word. -/
def fieldBits (msk offst : BitVec 8) : BitVec 16 := msk.setWidth 16 <<< offst.toNat

def withField (word : BitVec 16) (offst msk val : BitVec 8) : BitVec 16 :=
  (word &&& ~~~ fieldBits msk offst) ||| fieldBits (val &&& msk) offst

def codecConfigReg (idx : Fin 11) (offst msk val : BitVec 8) (state : State) : I2cRes × State :=
  setShadow acks idx (withField (state.codecShadowReg idx) offst msk val) state

def configField (field : Field) (val : BitVec 8) : State → I2cRes × State :=
  codecConfigReg acks field.idx field.offst field.msk val

/-- Calls one after the other, each followed by a return if it was not
acknowledged. -/
def checked : List (State → I2cRes × State) → State → I2cRes × State
  | [], state => (.i2cOk, state)
  | call :: rest, state =>
      if (call state).1 = .i2cOk then checked rest (call state).2
      else (.i2cNackDetected, (call state).2)

def codecSrUpdate (val : SrSel) : State → I2cRes × State := configField acks codecSr val.val

def codecIwlUpdate (val : CodecIwl) : State → I2cRes × State := configField acks codecIwl val.val

def codecInit (bps : Bps) (fs : Fs) : State → I2cRes × State :=
  checked
    [codecReset acks,
      setShadow acks codecPowerDownRegIdx 0xc10,
      setShadow acks codecLeftLineInRegIdx 0x17,
      setShadow acks codecRightLineInRegIdx 0x217,
      setShadow acks codecLeftHpOutRegIdx 0x4f9,
      setShadow acks codecRightHpOutRegIdx 0x6f9,
      setShadow acks codecDigitalAudPathRegIdx 0xa00,
      setShadow acks codecDigitalAudIfFmtRegIdx 0xe0f,
      codecIwlUpdate acks (bps2iwlLookup bps),
      codecSrUpdate acks (fs2srLookup fs),
      setShadow acks codecActiveCtrlRegIdx 0x1201,
      setShadow acks codecPowerDownRegIdx 0xc00]

def codecDspIfActivate : State → I2cRes × State := configField acks codecActive 0x1

def codecDspIfInactivate : State → I2cRes × State := configField acks codecActive 0x0

def codecDacActivate : State → I2cRes × State :=
  checked
    [configField acks codecDacpd 0x0, configField acks codecDacSel 0x1,
      configField acks codecDacMu 0x0]

def codecDacInactivate : State → I2cRes × State :=
  checked
    [configField acks codecDacMu 0x1, configField acks codecDacSel 0x0,
      configField acks codecDacpd 0x1]

def codecPwrOffNOn (val : CodecPwrOnOff) : State → I2cRes × State :=
  configField acks codecPwroff val.val

def codecLineinPwrDwnNUp (val : CodecPwrOnOff) : State → I2cRes × State :=
  configField acks codecLineinpd val.val

def codecLineoutPwrDwnNUp (val : CodecPwrOnOff) : State → I2cRes × State :=
  configField acks codecOutpd val.val

def codecAdcHpfEnable (val : CodecPwrOnOff) : State → I2cRes × State :=
  configField acks codecAdcHpd val.val

def codecAdcPwrDwnNUp (val : CodecPwrOnOff) : State → I2cRes × State :=
  configField acks codecAdcpd val.val

inductive Call where
  | codecReset
  | codecInit (bps : Bps) (fs : Fs)
  | codecConfigReg (idx : Fin 11) (offst msk val : BitVec 8)
  | codecDspIfActivate
  | codecDspIfInactivate
  | codecDacActivate
  | codecDacInactivate
  | codecPwrOffNOn (val : CodecPwrOnOff)
  | codecLineinPwrDwnNUp (val : CodecPwrOnOff)
  | codecLineoutPwrDwnNUp (val : CodecPwrOnOff)
  | codecAdcHpfEnable (val : CodecPwrOnOff)
  | codecAdcPwrDwnNUp (val : CodecPwrOnOff)
  | codecSrUpdate (val : SrSel)
  | codecIwlUpdate (val : CodecIwl)

def exec : Call → State → I2cRes × State
  | .codecReset => codecReset acks
  | .codecInit bps fs => codecInit acks bps fs
  | .codecConfigReg idx offst msk val => codecConfigReg acks idx offst msk val
  | .codecDspIfActivate => codecDspIfActivate acks
  | .codecDspIfInactivate => codecDspIfInactivate acks
  | .codecDacActivate => codecDacActivate acks
  | .codecDacInactivate => codecDacInactivate acks
  | .codecPwrOffNOn val => codecPwrOffNOn acks val
  | .codecLineinPwrDwnNUp val => codecLineinPwrDwnNUp acks val
  | .codecLineoutPwrDwnNUp val => codecLineoutPwrDwnNUp acks val
  | .codecAdcHpfEnable val => codecAdcHpfEnable acks val
  | .codecAdcPwrDwnNUp val => codecAdcPwrDwnNUp acks val
  | .codecSrUpdate val => codecSrUpdate acks val
  | .codecIwlUpdate val => codecIwlUpdate acks val

def after (init : State) (calls : Nat → Call) : Nat → State
  | 0 => init
  | n + 1 => (exec acks (calls n) (after init calls n)).2

end Functions

end Synesthesia.Codec
