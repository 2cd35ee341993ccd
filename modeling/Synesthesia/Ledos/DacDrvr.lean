/-
`dac_drvr.c`: the driver of the audio serialiser, over the registers the host sees.

An access over the local bus reads or writes one register of `wm8731_drvr_dac`.
The parameter `FS_T val` of `update_mclk` is an integer in C, so a caller may pass
a value of another enumeration.
-/

import Synesthesia.AudioCortex.Wm8731DrvrDac
import Synesthesia.Ledos.Codec

namespace Synesthesia.DacDrvr

open Synesthesia.AcortexRegMap
open Synesthesia.Codec
open Synesthesia.Wm8731DrvrDac

structure DacRegs where
  dacDrvrEn : Bool
  adcDrvrEn : Bool
  bps : Bool
  fsDivVal : BitVec 11
  mclkSel : BitVec 2
  mclkEn : Bool

def resetDacRegs : DacRegs :=
  { dacDrvrEn := false
    adcDrvrEn := false
    bps := true
    fsDivVal := 0
    mclkSel := 0
    mclkEn := false }

/-! ### Register accesses -/

def iordDacDrvrCtrl (regs : DacRegs) : BitVec 32 :=
  ((0 : BitVec 13) ++ BitVec.ofBool regs.bps ++ BitVec.ofBool regs.adcDrvrEn ++
    BitVec.ofBool regs.dacDrvrEn).setWidth 32

def iordDacDrvrMclkSel (regs : DacRegs) : BitVec 32 :=
  (BitVec.ofBool regs.mclkEn ++ (0 : BitVec 13) ++ regs.mclkSel).setWidth 32

def iowrDacDrvrCtrl (data : BitVec 32) (regs : DacRegs) : DacRegs :=
  { regs with
    dacDrvrEn := data.getLsbD 0
    adcDrvrEn := data.getLsbD 1
    bps := data.getLsbD 2 }

def iowrDacDrvrFsDiv (data : BitVec 32) (regs : DacRegs) : DacRegs :=
  { regs with fsDivVal := data.extractLsb' 0 11 }

def iowrDacDrvrMclkSel (data : BitVec 32) (regs : DacRegs) : DacRegs :=
  { regs with
    mclkSel := data.extractLsb' 0 2
    mclkEn := data.getLsbD 15 }

/-! ### Enumerations and tables -/

def fsVal : Fs → Fin 6
  | .fs8khz => 0
  | .fs32khz => 1
  | .fs44khz => 2
  | .fs48khz => 3
  | .fs88khz => 4
  | .fs96khz => 5

inductive MclkSelVal where
  | clk18mhz
  | clk16mhz
  | clk12mhz
  | clk11mhz
  deriving DecidableEq

def MclkSelVal.val : MclkSelVal → Fin 6
  | .clk18mhz => 0
  | .clk16mhz => 1
  | .clk12mhz => 2
  | .clk11mhz => 3

def fs2mclkLookup : Fin 6 → MclkSelVal :=
  ![.clk12mhz, .clk12mhz, .clk11mhz, .clk12mhz, .clk11mhz, .clk12mhz]

def fs2divLookup : Fin 6 → BitVec 32 :=
  ![781, 195, 142, 130, 71, 65]

/-! ### Functions -/

def dacDrvrEnMsk : BitVec 32 := 0x1
def dacDrvrBpsMsk : BitVec 32 := 0x4
def dacDrvrMclkEnMsk : BitVec 32 := 0x8000

def enableDacDrvr (regs : DacRegs) : DacRegs :=
  iowrDacDrvrCtrl (iordDacDrvrCtrl regs ||| dacDrvrEnMsk) regs

def configureDacDrvrBps (val : Bps) (regs : DacRegs) : DacRegs :=
  match val with
  | .bps32 => iowrDacDrvrCtrl (iordDacDrvrCtrl regs ||| dacDrvrBpsMsk) regs
  | .bps16 => iowrDacDrvrCtrl (iordDacDrvrCtrl regs &&& ~~~ dacDrvrBpsMsk) regs

def enableMclk (regs : DacRegs) : DacRegs :=
  iowrDacDrvrMclkSel (iordDacDrvrMclkSel regs ||| dacDrvrMclkEnMsk) regs

def disableMclk (regs : DacRegs) : DacRegs :=
  iowrDacDrvrMclkSel 0x0 regs

def updateMclk (val : Fin 6) (regs : DacRegs) : DacRegs :=
  enableMclk
    (iowrDacDrvrMclkSel (BitVec.ofNat 32 (fs2mclkLookup val).val.val) (disableMclk regs))

def updateFsDiv (val : Fin 6) (regs : DacRegs) : DacRegs :=
  iowrDacDrvrFsDiv (fs2divLookup val) regs

/-! ### The registers of the serialiser -/

def dacRegs (state : Wm8731DrvrDac.State) : DacRegs :=
  { dacDrvrEn := state.dacDrvrEnF
    adcDrvrEn := state.adcDrvrEnF
    bps := state.bpsF
    fsDivVal := state.fsDivValF
    mclkSel := state.mclkSelF
    mclkEn := state.mclkEnF }

theorem dacRegs_reset : dacRegs Wm8731DrvrDac.reset = resetDacRegs := rfl

section Accesses

variable {state : Wm8731DrvrDac.State} {inputs : Wm8731DrvrDac.Inputs}

/-- What a write leaves, the lower half of the word being on the bus. -/
def written (address : BitVec 8) (data : BitVec 32) (regs : DacRegs) : DacRegs :=
  if address = dacDrvrCtrlRegAddr then iowrDacDrvrCtrl data regs
  else if address = dacDrvrFsDivRegAddr then iowrDacDrvrFsDiv data regs
  else if address = dacDrvrMclkSelRegAddr then iowrDacDrvrMclkSel data regs
  else regs

theorem lower_getLsbD (data : BitVec 32) {i : Nat} (low : i < 16) :
    (data.setWidth 16).getLsbD i = data.getLsbD i := by
  rw [BitVec.getLsbD_setWidth, decide_eq_true low, Bool.true_and]

theorem lower_extractLsb' (data : BitVec 32) {len : Nat} (low : len ≤ 16) :
    (data.setWidth 16).extractLsb' 0 len = data.extractLsb' 0 len := by
  apply BitVec.eq_of_getLsbD_eq
  intro i inside
  rw [BitVec.getLsbD_extractLsb', BitVec.getLsbD_extractLsb', lower_getLsbD data (by omega)]

theorem dacRegs_write (data : BitVec 32) (enabled : inputs.lbWrEnIh = true)
    (word : inputs.lbWrDataId = data.setWidth 16) :
    dacRegs (step state inputs) = written inputs.lbAddrId data (dacRegs state) := by
  have select : ∀ address, lbWrites inputs address = decide (inputs.lbAddrId = address) := by
    intro address
    rw [lbWrites, enabled, Bool.true_and]
  unfold written
  split
  case isTrue ctrl =>
    rw [ctrl] at select
    have atCtrl := (select dacDrvrCtrlRegAddr).trans (decide_eq_true rfl)
    have atFsDiv := (select dacDrvrFsDivRegAddr).trans (decide_eq_false (by decide))
    have atMclk := (select dacDrvrMclkSelRegAddr).trans (decide_eq_false (by decide))
    simp only [dacRegs, step, atCtrl, atFsDiv, atMclk, word, iowrDacDrvrCtrl, reduceIte,
      Bool.false_eq_true, lower_getLsbD data (by decide : 0 < 16),
      lower_getLsbD data (by decide : 1 < 16), lower_getLsbD data (by decide : 2 < 16)]
  case isFalse ctrl =>
    have offCtrl := (select dacDrvrCtrlRegAddr).trans (decide_eq_false ctrl)
    split
    case isTrue fsDiv =>
      rw [fsDiv] at select
      have atFsDiv := (select dacDrvrFsDivRegAddr).trans (decide_eq_true rfl)
      have atMclk := (select dacDrvrMclkSelRegAddr).trans (decide_eq_false (by decide))
      simp only [dacRegs, step, offCtrl, atFsDiv, atMclk, word, iowrDacDrvrFsDiv, reduceIte,
        Bool.false_eq_true, lower_extractLsb' data (by decide : 11 ≤ 16)]
    case isFalse fsDiv =>
      have offFsDiv := (select dacDrvrFsDivRegAddr).trans (decide_eq_false fsDiv)
      split
      case isTrue mclk =>
        have atMclk := (select dacDrvrMclkSelRegAddr).trans (decide_eq_true mclk)
        simp only [dacRegs, step, offCtrl, offFsDiv, atMclk, word, iowrDacDrvrMclkSel,
          reduceIte, Bool.false_eq_true, lower_extractLsb' data (by decide : 2 ≤ 16),
          lower_getLsbD data (by decide : 15 < 16)]
      case isFalse mclk =>
        have offMclk := (select dacDrvrMclkSelRegAddr).trans (decide_eq_false mclk)
        simp only [dacRegs, step, offCtrl, offFsDiv, offMclk, reduceIte, Bool.false_eq_true]

theorem lbRdDataOd_read :
    (inputs.lbAddrId = dacDrvrCtrlRegAddr →
        (step state inputs).lbRdDataOd.setWidth 32 = iordDacDrvrCtrl (dacRegs state)) ∧
      (inputs.lbAddrId = dacDrvrMclkSelRegAddr →
        (step state inputs).lbRdDataOd.setWidth 32 = iordDacDrvrMclkSel (dacRegs state)) := by
  have read : (step state inputs).lbRdDataOd = nextLbRdData state inputs.lbAddrId := rfl
  rw [read]
  constructor
  · intro ctrl
    rw [ctrl]
    rfl
  · intro mclk
    rw [mclk]
    rfl

end Accesses

/-! ### What the functions leave -/

variable (regs : DacRegs)

theorem iordDacDrvrCtrl_bits :
    (iordDacDrvrCtrl regs).getLsbD 0 = regs.dacDrvrEn ∧
      (iordDacDrvrCtrl regs).getLsbD 1 = regs.adcDrvrEn ∧
      (iordDacDrvrCtrl regs).getLsbD 2 = regs.bps := by
  unfold iordDacDrvrCtrl
  cases regs.bps <;> cases regs.adcDrvrEn <;> cases regs.dacDrvrEn <;> decide

theorem enableDacDrvr_eq : enableDacDrvr regs = { regs with dacDrvrEn := true } := by
  obtain ⟨dacBit, adcBit, bpsBit⟩ := iordDacDrvrCtrl_bits regs
  simp only [enableDacDrvr, iowrDacDrvrCtrl, BitVec.getLsbD_or, dacBit, adcBit, bpsBit]
  simp [dacDrvrEnMsk]

theorem enableMclk_eq : enableMclk regs = { regs with mclkEn := true } := by
  have fields : ∀ (mclkEn : Bool) (mclkSel : BitVec 2),
      (((BitVec.ofBool mclkEn ++ (0 : BitVec 13) ++ mclkSel).setWidth 32 |||
          dacDrvrMclkEnMsk).extractLsb' 0 2 = mclkSel) ∧
        ((BitVec.ofBool mclkEn ++ (0 : BitVec 13) ++ mclkSel).setWidth 32 |||
          dacDrvrMclkEnMsk).getLsbD 15 = true := by
    decide
  obtain ⟨sel, enabled⟩ := fields regs.mclkEn regs.mclkSel
  simp only [enableMclk, iowrDacDrvrMclkSel, iordDacDrvrMclkSel, sel, enabled]

theorem updateMclk_eq (val : Fin 6) :
    updateMclk val regs =
      { regs with
        mclkSel := BitVec.ofNat 2 (fs2mclkLookup val).val.val
        mclkEn := true } := by
  have sel : ∀ clk : Fin 6, (BitVec.ofNat 32 clk.val).extractLsb' 0 2 = BitVec.ofNat 2 clk.val := by
    decide
  unfold updateMclk
  rw [enableMclk_eq]
  simp only [iowrDacDrvrMclkSel, disableMclk, sel]

end Synesthesia.DacDrvr
