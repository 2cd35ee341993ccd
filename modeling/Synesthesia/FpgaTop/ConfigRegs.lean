/-
The configuration registers behind the tree of local buses.

A register is found under the addresses that select it.  Its value is what a read
shows, and a write leaves the bits of its mask.
-/

import Synesthesia.FpgaTop.LbRoute

namespace Synesthesia.CortexTree

open Synesthesia.Rtl
open Synesthesia.SynCortexLb (Request)
open Synesthesia.CortexIrq (Channel)

inductive ConfigReg where
  | fgyrusControl (channel : Channel)
  | fgyrusPostNorm (channel : Channel)
  | vcortexControl
  | pwmWord (index : BitVec 4)
  | prsrCtrl
  | prsrHdrRamRdAddr
  | dacCtrl
  | dacFsDiv
  | dacMclkSel
  | i2cAddr
  | i2cClkDiv
  | sramAccAddrH
  | sramAccAddrL
  | audioSrcSel
  deriving DecidableEq

def Selects (addr : BitVec 16) : ConfigReg → Prop
  | .fgyrusControl channel =>
      block addr = .fgyrus channel ∧ codeOf addr = FgyrusLb.fgyrusRegCode ∧
        regOf addr = FgyrusLb.fgyrusControlRegAddr
  | .fgyrusPostNorm channel =>
      block addr = .fgyrus channel ∧ codeOf addr = FgyrusLb.fgyrusRegCode ∧
        regOf addr = FgyrusLb.fgyrusPostNormRegAddr
  | .vcortexControl => block addr = .vcortex ∧ codeOf addr = VcortexTop.vcortexRegCode
  | .pwmWord index =>
      block addr = .vcortex ∧ codeOf addr = VcortexTop.vcortexPwmRamCode ∧
        (addr.extractLsb' 0 12).extractLsb' 0 4 = index
  | .prsrCtrl => block addr = .prsr ∧ regOf addr = AcortexRegMap.prsrCtrlRegAddr
  | .prsrHdrRamRdAddr =>
      block addr = .prsr ∧ regOf addr = AcortexRegMap.prsrHdrRamRdAddrRegAddr
  | .dacCtrl => block addr = .dac ∧ regOf addr = AcortexRegMap.dacDrvrCtrlRegAddr
  | .dacFsDiv => block addr = .dac ∧ regOf addr = AcortexRegMap.dacDrvrFsDivRegAddr
  | .dacMclkSel => block addr = .dac ∧ regOf addr = AcortexRegMap.dacDrvrMclkSelRegAddr
  | .i2cAddr => block addr = .i2c ∧ regOf addr = AcortexRegMap.i2cDriverAddrRegAddr
  | .i2cClkDiv => block addr = .i2c ∧ regOf addr = AcortexRegMap.i2cDriverClkDivRegAddr
  | .sramAccAddrH => block addr = .sram ∧ regOf addr = AcortexRegMap.sramAccAddrHRegAddr
  | .sramAccAddrL => block addr = .sram ∧ regOf addr = AcortexRegMap.sramAccAddrLRegAddr
  | .audioSrcSel =>
      block addr = .own ∧ codeOf addr = AcortexRegMap.acortexAudioSrcSelReg

instance (addr : BitVec 16) (reg : ConfigReg) : Decidable (Selects addr reg) := by
  unfold Selects
  cases reg <;> infer_instance

/-- The bits that a write leaves in the register. -/
def writeMask : ConfigReg → BitVec 32
  | .fgyrusControl _ => 0x1
  | .fgyrusPostNorm _ => 0xf
  | .vcortexControl => 0x1
  | .pwmWord _ => 0xffff
  | .prsrCtrl => 0x1
  | .prsrHdrRamRdAddr => 0xff
  | .dacCtrl => 0x7
  | .dacFsDiv => 0x7ff
  | .dacMclkSel => 0x8003
  | .i2cAddr => 0xff
  | .i2cClkDiv => 0xff
  | .sramAccAddrH => 0x3
  | .sramAccAddrL => 0xffff
  | .audioSrcSel => 0x1

def flag (bit : Bool) : BitVec 32 := (BitVec.ofBool bit).setWidth 32

/-- What a read of the register shows. -/
def value (state : State) : ConfigReg → BitVec 32
  | .fgyrusControl channel => flag (state.cortex.fgyrusLb channel).fgyrusEnOh
  | .fgyrusPostNorm channel =>
      (state.cortex.fgyrusLb channel).fgyrusPostNormOd.setWidth 32
  | .vcortexControl => flag state.vcortex.lb.pwmGenEnOh
  | .pwmWord index => (state.vcortex.ram.memory index).setWidth 32
  | .prsrCtrl => flag state.acortex.prsr.prsrEnF
  | .prsrHdrRamRdAddr => state.acortex.prsr.hdrRamRdAddrF.setWidth 32
  | .dacCtrl =>
      ((0 : BitVec 13) ++ BitVec.ofBool state.acortex.dac.bpsF ++
        BitVec.ofBool state.acortex.dac.adcDrvrEnF ++
        BitVec.ofBool state.acortex.dac.dacDrvrEnF).setWidth 32
  | .dacFsDiv => state.acortex.dac.fsDivValF.setWidth 32
  | .dacMclkSel =>
      (BitVec.ofBool state.acortex.dac.mclkEnF ++ (0 : BitVec 13) ++
        state.acortex.dac.mclkSelF).setWidth 32
  | .i2cAddr => state.acortex.i2c.addrF.setWidth 32
  | .i2cClkDiv => state.acortex.i2c.clkDivValF.setWidth 32
  | .sramAccAddrH => (state.acortex.sram.lb.sramMmAddrOd.extractLsb' 16 2).setWidth 32
  | .sramAccAddrL => (state.acortex.sram.lb.sramMmAddrOd.extractLsb' 0 16).setWidth 32
  | .audioSrcSel => flag state.acortex.lb.acortexAudSrcSelOd

/-- Samples are 32 bits wide after a reset; the PWM RAM holds what it held before. -/
def resetValue (contents : Contents) : ConfigReg → BitVec 32
  | .dacCtrl => 4
  | .pwmWord index => (contents.pwm index).setWidth 32
  | _ => 0

theorem reset_words :
    ((0 : BitVec 13) ++ BitVec.ofBool true ++ BitVec.ofBool false ++
        BitVec.ofBool false).setWidth 32 = (4 : BitVec 32) ∧
      (BitVec.ofBool false ++ (0 : BitVec 13) ++ (0 : BitVec 2)).setWidth 32 = (0 : BitVec 32) ∧
      ((0 : BitVec 18).extractLsb' 16 2).setWidth 32 = (0 : BitVec 32) := by
  decide

theorem value_reset (contents : Contents) (reg : ConfigReg) :
    value (reset contents) reg = resetValue contents reg := by
  cases reg with
  | dacCtrl => exact reset_words.1
  | dacMclkSel => exact reset_words.2.1
  | sramAccAddrH => exact reset_words.2.2
  | _ => rfl

/-! ### Masks -/

theorem low_masks : ∀ i : Fin 32,
    (0x1 : BitVec 32).getLsbD i = decide (i.val < 1) ∧
      (0x3 : BitVec 32).getLsbD i = decide (i.val < 2) ∧
      (0x7 : BitVec 32).getLsbD i = decide (i.val < 3) ∧
      (0xf : BitVec 32).getLsbD i = decide (i.val < 4) ∧
      (0xff : BitVec 32).getLsbD i = decide (i.val < 8) ∧
      (0x7ff : BitVec 32).getLsbD i = decide (i.val < 11) ∧
      (0xffff : BitVec 32).getLsbD i = decide (i.val < 16) := by
  decide

theorem low_bits {width : Nat} (mask data : BitVec 32)
    (low : ∀ i : Fin 32, mask.getLsbD i = decide (i.val < width)) :
    (data.extractLsb' 0 width).setWidth 32 = data &&& mask := by
  apply BitVec.eq_of_getLsbD_eq
  intro i inside
  rw [BitVec.getLsbD_setWidth, BitVec.getLsbD_extractLsb', BitVec.getLsbD_and, low ⟨i, inside⟩,
    decide_eq_true inside, Bool.true_and, Nat.zero_add, Bool.and_comm]

theorem lower_half {width : Nat} (narrow : width ≤ 16) (data : BitVec 32) :
    (data.extractLsb' 0 16).extractLsb' 0 width = data.extractLsb' 0 width := by
  apply BitVec.eq_of_getLsbD_eq
  intro i inside
  rw [BitVec.getLsbD_extractLsb', BitVec.getLsbD_extractLsb', BitVec.getLsbD_extractLsb',
    Nat.zero_add, decide_eq_true (show i < 16 by omega), Nat.zero_add, Bool.true_and]

theorem lower_half_bit {place : Nat} (narrow : place < 16) (data : BitVec 32) :
    (data.extractLsb' 0 16).getLsbD place = data.getLsbD place := by
  rw [BitVec.getLsbD_extractLsb', decide_eq_true narrow, Bool.true_and, Nat.zero_add]

theorem flag_mask (data : BitVec 32) : flag (data.getLsbD 0) = data &&& 0x1 := by
  apply BitVec.eq_of_getLsbD_eq
  intro i inside
  unfold flag
  rw [BitVec.getLsbD_setWidth, BitVec.getLsbD_ofBool, BitVec.getLsbD_and,
    (low_masks ⟨i, inside⟩).1, decide_eq_true inside, Bool.true_and]
  by_cases first : i = 0
  · subst first
    simp
  · simp [first]

theorem append_bit {width : Nat} (vec : BitVec width) (bit : Bool) (i : Nat) :
    (vec ++ BitVec.ofBool bit).getLsbD i = if i = 0 then bit else vec.getLsbD (i - 1) := by
  rw [BitVec.getLsbD_append, BitVec.getLsbD_ofBool]
  by_cases first : i = 0
  · subst first
    rfl
  · simp [first]

theorem dacCtrl_mask (data : BitVec 32) :
    ((0 : BitVec 13) ++ BitVec.ofBool (data.getLsbD 2) ++ BitVec.ofBool (data.getLsbD 1) ++
      BitVec.ofBool (data.getLsbD 0)).setWidth 32 = data &&& 0x7 := by
  apply BitVec.eq_of_getLsbD_eq
  intro i inside
  rw [BitVec.getLsbD_and, (low_masks ⟨i, inside⟩).2.2.1, BitVec.getLsbD_setWidth, append_bit,
    append_bit, append_bit, decide_eq_true inside, Bool.true_and]
  rcases i with _ | _ | _ | i
  · simp
  · simp
  · simp
  · simp

theorem mclkSel_bits : ∀ i : Fin 32,
    (0x8003 : BitVec 32).getLsbD i = decide (i.val < 2 ∨ i.val = 15) := by
  decide

theorem mclkSel_mask (data : BitVec 32) :
    (BitVec.ofBool (data.getLsbD 15) ++ (0 : BitVec 13) ++
      data.extractLsb' 0 2).setWidth 32 = data &&& 0x8003 := by
  apply BitVec.eq_of_getLsbD_eq
  intro i inside
  rw [BitVec.getLsbD_and, mclkSel_bits ⟨i, inside⟩, BitVec.getLsbD_setWidth,
    decide_eq_true inside, Bool.true_and, BitVec.getLsbD_append, BitVec.getLsbD_append,
    BitVec.getLsbD_ofBool, BitVec.getLsbD_extractLsb']
  by_cases low : i < 2
  · simp [low]
  · by_cases top : i = 15
    · subst top
      simp
    · simp [low, top]
      omega

/-! ### One clock edge -/

/-- The value of a register that is written under a condition on the bus. -/
def written (state : State) (request : Request) (reg : ConfigReg) : BitVec 32 :=
  if request.lbWrEnIh = true ∧ Selects request.lbAddrId reg then
    request.lbWrDataId &&& writeMask reg
  else value state reg

section Step

variable {state : State} {inputs : Inputs}

theorem written_eq {Word : Type} (shows : Word → BitVec 32) {request : Request} {reg : ConfigReg}
    {hit : Prop} [Decidable hit] {new old : Word}
    (selected : hit ↔ request.lbWrEnIh = true ∧ Selects request.lbAddrId reg)
    (masked : shows new = request.lbWrDataId &&& writeMask reg)
    (kept : shows old = value state reg) :
    shows (if hit then new else old) = written state request reg := by
  unfold written
  by_cases holds : hit
  · rw [if_pos holds, if_pos (selected.mp holds), masked]
  · rw [if_neg holds, if_neg fun wanted => holds (selected.mpr wanted), kept]

theorem written_eq_parts {First Second Third : Type} (shows : First → Second → Third → BitVec 32)
    {request : Request} {reg : ConfigReg} {hit : Prop} [Decidable hit] {first first' : First}
    {second second' : Second} {third third' : Third}
    (selected : hit ↔ request.lbWrEnIh = true ∧ Selects request.lbAddrId reg)
    (masked : shows first second third = request.lbWrDataId &&& writeMask reg)
    (kept : shows first' second' third' = value state reg) :
    shows (if hit then first else first') (if hit then second else second')
      (if hit then third else third') = written state request reg := by
  unfold written
  by_cases holds : hit
  · rw [if_pos holds, if_pos holds, if_pos holds, if_pos (selected.mp holds), masked]
  · rw [if_neg holds, if_neg holds, if_neg holds,
      if_neg fun wanted => holds (selected.mpr wanted), kept]

theorem fgyrus_sel (channel : Channel) (request : Request) :
    SynCortexLb.blkWrEnOh (CortexIrq.fgyrusSelC channel) request =
      (decide (block request.lbAddrId = .fgyrus channel) && request.lbWrEnIh) := by
  cases channel with
  | lchnl => exact congrArg (· && request.lbWrEnIh) (decodes _ _).fgyrusL
  | rchnl => exact congrArg (· && request.lbWrEnIh) (decodes _ _).fgyrusR

theorem vcortex_wrEn (request : Request) :
    SynCortexLb.blkWrEnOh SynCortexLb.vcortexSelC request =
      (decide (block request.lbAddrId = .vcortex) && request.lbWrEnIh) :=
  congrArg (· && request.lbWrEnIh) (decodes _ _).vcortex

theorem fgyrus_regWrite (channel : Channel) (reg : BitVec 8) :
    FgyrusLb.regWrite reg (CortexIrq.fgyrusLbInputs (cortexInputs state inputs) channel) = true ↔
      inputs.request.lbWrEnIh = true ∧ block inputs.request.lbAddrId = .fgyrus channel ∧
        codeOf inputs.request.lbAddrId = FgyrusLb.fgyrusRegCode ∧
        regOf inputs.request.lbAddrId = reg := by
  change (codeOf inputs.request.lbAddrId == FgyrusLb.fgyrusRegCode &&
    SynCortexLb.blkWrEnOh (CortexIrq.fgyrusSelC channel) inputs.request &&
    regOf inputs.request.lbAddrId == reg) = true ↔ _
  rw [fgyrus_sel]
  simp only [Bool.and_eq_true, beq_iff_eq, decide_eq_true_eq]
  tauto

theorem fgyrusControl_step (channel : Channel) :
    value (step state inputs) (.fgyrusControl channel) =
      written state inputs.request (.fgyrusControl channel) :=
  written_eq flag (fgyrus_regWrite channel _) (flag_mask _) rfl

theorem fgyrusPostNorm_step (channel : Channel) :
    value (step state inputs) (.fgyrusPostNorm channel) =
      written state inputs.request (.fgyrusPostNorm channel) :=
  written_eq (BitVec.setWidth 32) (fgyrus_regWrite channel _)
    (low_bits _ _ fun i => (low_masks i).2.2.2.1) rfl

theorem vcortexControl_step :
    value (step state inputs) .vcortexControl = written state inputs.request .vcortexControl := by
  refine written_eq flag ?_ ?_ rfl
  · change (decide (codeOf inputs.request.lbAddrId = VcortexTop.vcortexRegCode) &&
      SynCortexLb.blkWrEnOh SynCortexLb.vcortexSelC inputs.request) = true ↔ _
    rw [vcortex_wrEn]
    simp only [Bool.and_eq_true, decide_eq_true_eq, Selects]
    tauto
  · refine Eq.trans ?_ (flag_mask _)
    exact congrArg flag (lower_half_bit (by decide) _)

theorem pwmWord_step (index : BitVec 4) :
    value (step state inputs) (.pwmWord index) =
      written state inputs.request (.pwmWord index) := by
  refine written_eq (BitVec.setWidth 32) ?_ (low_bits _ _ fun i => (low_masks i).2.2.2.2.2.2) rfl
  change ((decide (codeOf inputs.request.lbAddrId = VcortexTop.vcortexPwmRamCode) &&
    SynCortexLb.blkWrEnOh SynCortexLb.vcortexSelC inputs.request) = true ∧
      index = (inputs.request.lbAddrId.extractLsb' 0 12).extractLsb' 0 4) ↔ _
  rw [vcortex_wrEn]
  simp only [Bool.and_eq_true, decide_eq_true_eq, Selects]
  constructor
  · rintro ⟨⟨code, selected, write⟩, same⟩
    exact ⟨write, selected, code, same.symm⟩
  · rintro ⟨write, selected, code, same⟩
    exact ⟨⟨code, selected, write⟩, same.symm⟩

/-! ### Blocks of the audio part -/

theorem i2c_step (up : running state inputs = true) :
    (step state inputs).acortex.i2c =
      I2cMaster.step state.acortex.i2c (AcortexBlocks.i2cInputs (acortexInputs inputs)) :=
  congrArg AcortexBlocks.State.i2c (AcortexBlocks.step_running up)

theorem sram_step (up : running state inputs = true) :
    (step state inputs).acortex.sram =
      SramPort.step state.acortex.sram (AcortexBlocks.sramInputs (acortexInputs inputs)) :=
  congrArg AcortexBlocks.State.sram (AcortexBlocks.step_running up)

theorem prsr_step (up : running state inputs = true) :
    (step state inputs).acortex.prsr =
      WavPrsr.step state.acortex.prsr (AcortexBlocks.prsrInputs (acortexInputs inputs)) :=
  congrArg AcortexBlocks.State.prsr (AcortexBlocks.step_running up)

theorem dac_step (up : running state inputs = true) :
    (step state inputs).acortex.dac =
      Wm8731DrvrDac.step state.acortex.dac (AcortexBlocks.dacInputs (acortexInputs inputs)) :=
  congrArg AcortexBlocks.State.dac (AcortexBlocks.step_running up)

theorem blkWrEn_iff (request : Request) (reg : BitVec 8) :
    ((AcortexLb.wrenC AcortexRegMap.i2cDriver (acortexRequest request) = true ∧
        regOf request.lbAddrId = reg) ↔
      request.lbWrEnIh = true ∧ block request.lbAddrId = .i2c ∧ regOf request.lbAddrId = reg) ∧
    ((AcortexLb.wrenC AcortexRegMap.wavPrsr (acortexRequest request) = true ∧
        regOf request.lbAddrId = reg) ↔
      request.lbWrEnIh = true ∧ block request.lbAddrId = .prsr ∧ regOf request.lbAddrId = reg) ∧
    ((AcortexLb.wrenC AcortexRegMap.dacDrvr (acortexRequest request) = true ∧
        regOf request.lbAddrId = reg) ↔
      request.lbWrEnIh = true ∧ block request.lbAddrId = .dac ∧ regOf request.lbAddrId = reg) ∧
    ((AcortexLb.wrenC AcortexRegMap.sram (acortexRequest request) = true ∧
        regOf request.lbAddrId = reg) ↔
      request.lbWrEnIh = true ∧ block request.lbAddrId = .sram ∧
        regOf request.lbAddrId = reg) := by
  obtain ⟨-, -, -, i2c, sram, prsr, dac, -, -⟩ :=
    decodes (blkOf request.lbAddrId) (codeOf request.lbAddrId)
  unfold block
  rw [wrenC_eq, wrenC_eq, wrenC_eq, wrenC_eq, i2c, sram, prsr, dac]
  simp only [Bool.and_eq_true, decide_eq_true_eq]
  tauto

theorem i2cAddr_step (up : running state inputs = true) :
    value (step state inputs) .i2cAddr = written state inputs.request .i2cAddr := by
  unfold value
  rw [i2c_step up]
  refine written_eq (BitVec.setWidth 32) (blkWrEn_iff inputs.request _).1 ?_ rfl
  refine Eq.trans ?_ (low_bits _ _ fun i => (low_masks i).2.2.2.2.1)
  exact congrArg _ (lower_half (by decide) _)

theorem i2cClkDiv_step (up : running state inputs = true) :
    value (step state inputs) .i2cClkDiv = written state inputs.request .i2cClkDiv := by
  unfold value
  rw [i2c_step up]
  refine written_eq (BitVec.setWidth 32) (blkWrEn_iff inputs.request _).1 ?_ rfl
  refine Eq.trans ?_ (low_bits _ _ fun i => (low_masks i).2.2.2.2.1)
  exact congrArg _ (lower_half (by decide) _)

theorem prsrCtrl_step (up : running state inputs = true) :
    value (step state inputs) .prsrCtrl = written state inputs.request .prsrCtrl := by
  unfold value
  rw [prsr_step up]
  refine written_eq flag (blkWrEn_iff inputs.request _).2.1 ?_ rfl
  refine Eq.trans ?_ (flag_mask _)
  exact congrArg flag (lower_half_bit (by decide) _)

theorem prsrHdrRamRdAddr_step (up : running state inputs = true) :
    value (step state inputs) .prsrHdrRamRdAddr =
      written state inputs.request .prsrHdrRamRdAddr := by
  unfold value
  rw [prsr_step up]
  refine written_eq (BitVec.setWidth 32) (blkWrEn_iff inputs.request _).2.1 ?_ rfl
  refine Eq.trans ?_ (low_bits _ _ fun i => (low_masks i).2.2.2.2.1)
  exact congrArg _ (lower_half (by decide) _)

theorem dac_writes (reg : BitVec 8) :
    Wm8731DrvrDac.lbWrites (AcortexBlocks.dacInputs (acortexInputs inputs)) reg = true ↔
      inputs.request.lbWrEnIh = true ∧ block inputs.request.lbAddrId = .dac ∧
        regOf inputs.request.lbAddrId = reg := by
  rw [← (blkWrEn_iff inputs.request reg).2.2.1]
  unfold Wm8731DrvrDac.lbWrites
  rw [Bool.and_eq_true, decide_eq_true_eq]
  rfl

theorem dacFsDiv_step (up : running state inputs = true) :
    value (step state inputs) .dacFsDiv = written state inputs.request .dacFsDiv := by
  unfold value
  rw [dac_step up]
  refine written_eq (BitVec.setWidth 32) (dac_writes _) ?_ rfl
  refine Eq.trans ?_ (low_bits _ _ fun i => (low_masks i).2.2.2.2.2.1)
  exact congrArg _ (lower_half (by decide) _)

theorem dacCtrl_step (up : running state inputs = true) :
    value (step state inputs) .dacCtrl = written state inputs.request .dacCtrl := by
  unfold value
  rw [dac_step up]
  refine written_eq_parts
    (fun bps adc dac => ((0 : BitVec 13) ++ BitVec.ofBool bps ++ BitVec.ofBool adc ++
      BitVec.ofBool dac).setWidth 32) (dac_writes _) ?_ rfl
  refine Eq.trans ?_ (dacCtrl_mask _)
  rw [← lower_half_bit (by decide : 2 < 16), ← lower_half_bit (by decide : 1 < 16),
    ← lower_half_bit (by decide : 0 < 16)]
  rfl

theorem dacMclkSel_step (up : running state inputs = true) :
    value (step state inputs) .dacMclkSel = written state inputs.request .dacMclkSel := by
  unfold value
  rw [dac_step up]
  refine @written_eq_parts state Bool (BitVec 2) Unit
    (fun enable select _ => (BitVec.ofBool enable ++ (0 : BitVec 13) ++ select).setWidth 32)
    _ _ _ _ _ _ _ _ () () (dac_writes _) ?_ rfl
  refine Eq.trans ?_ (mclkSel_mask _)
  rw [← lower_half_bit (by decide : 15 < 16), ← lower_half (by decide : 2 ≤ 16)]
  rfl

theorem audioSrcSel_sel : ∀ blk code : BitVec 4,
    (blk == SynCortexLb.acortexBlk && code == AcortexRegMap.acortexAudioSrcSelReg) =
      decide (blockOf blk code = .own ∧ code = AcortexRegMap.acortexAudioSrcSelReg) := by
  decide +kernel

theorem audioSrcSel_step :
    value (step state inputs) .audioSrcSel = written state inputs.request .audioSrcSel := by
  refine written_eq flag ?_ ?_ rfl
  · change AcortexLb.wrenC AcortexRegMap.acortexAudioSrcSelReg (acortexRequest inputs.request) =
      true ↔ _
    rw [wrenC_eq, audioSrcSel_sel, Bool.and_eq_true, decide_eq_true_eq, and_comm]
    exact Iff.rfl
  · refine Eq.trans ?_ (flag_mask _)
    exact congrArg flag (lower_half_bit (by decide) _)

theorem sramAccAddr_step (up : running state inputs = true) :
    value (step state inputs) .sramAccAddrH = written state inputs.request .sramAccAddrH ∧
      value (step state inputs) .sramAccAddrL = written state inputs.request .sramAccAddrL := by
  have next : (step state inputs).acortex.sram.lb.sramMmAddrOd =
      SramLb.nextSramMmAddr state.acortex.sram.lb
        (SramPort.lbInputs state.acortex.sram
          (AcortexBlocks.sramInputs (acortexInputs inputs))) := by
    rw [sram_step up]
    rfl
  unfold value
  rw [next]
  constructor
  · rw [SramLb.nextSramMmAddr_high]
    refine written_eq (BitVec.setWidth 32) (blkWrEn_iff inputs.request _).2.2.2 ?_ rfl
    refine Eq.trans ?_ (low_bits _ _ fun i => (low_masks i).2.1)
    exact congrArg _ (lower_half (by decide) _)
  · rw [SramLb.nextSramMmAddr_low]
    refine written_eq (BitVec.setWidth 32) (blkWrEn_iff inputs.request _).2.2.2 ?_ rfl
    exact low_bits _ _ fun i => (low_masks i).2.2.2.2.2.2

theorem value_step (up : running state inputs = true) (reg : ConfigReg) :
    value (step state inputs) reg = written state inputs.request reg := by
  cases reg with
  | fgyrusControl channel => exact fgyrusControl_step channel
  | fgyrusPostNorm channel => exact fgyrusPostNorm_step channel
  | vcortexControl => exact vcortexControl_step
  | pwmWord index => exact pwmWord_step index
  | prsrCtrl => exact prsrCtrl_step up
  | prsrHdrRamRdAddr => exact prsrHdrRamRdAddr_step up
  | dacCtrl => exact dacCtrl_step up
  | dacFsDiv => exact dacFsDiv_step up
  | dacMclkSel => exact dacMclkSel_step up
  | i2cAddr => exact i2cAddr_step up
  | i2cClkDiv => exact i2cClkDiv_step up
  | sramAccAddrH => exact (sramAccAddr_step up).1
  | sramAccAddrL => exact (sramAccAddr_step up).2
  | audioSrcSel => exact audioSrcSel_step

end Step

end Synesthesia.CortexTree
