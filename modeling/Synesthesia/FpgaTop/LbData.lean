/-
The data of a read on its way up the tree.

While the address stays on the bus every multiplexer on the way selects the same
register, so each place of the answer holds the value that the register shows.
-/

import Synesthesia.FpgaTop.ConfigRegs

namespace Synesthesia.CortexTree

open Synesthesia.Rtl
open Synesthesia.Prog
open Synesthesia.SynCortexLb (Request)
open Synesthesia.CortexIrq (Channel)

/-! ### Multiplexers -/

theorem widen_twice {width middle : Nat} (fits : width ≤ middle) (word : BitVec width) :
    (word.setWidth middle).setWidth 32 = word.setWidth 32 := by
  apply BitVec.eq_of_getLsbD_eq
  intro i inside
  rw [BitVec.getLsbD_setWidth, BitVec.getLsbD_setWidth, BitVec.getLsbD_setWidth]
  by_cases low : i < middle
  · rw [decide_eq_true low, Bool.true_and]
  · rw [BitVec.getLsbD_of_ge word i (by omega), Bool.and_false]

theorem widen_zeros (word : BitVec 11) :
    ((0 : BitVec 5) ++ word).setWidth 32 = word.setWidth 32 := by
  apply BitVec.eq_of_getLsbD_eq
  intro i inside
  rw [BitVec.getLsbD_setWidth, BitVec.getLsbD_setWidth, BitVec.getLsbD_append]
  by_cases low : i < 11
  · rw [if_pos low]
  · rw [if_neg low, BitVec.getLsbD_of_ge word i (by omega)]
    simp

theorem widen_flag (bit : Bool) :
    ((0 : BitVec 15) ++ BitVec.ofBool bit).setWidth 32 = flag bit := by
  cases bit <;> rfl

section Mux

variable {state : State} {addr : BitVec 16} {reg : ConfigReg}

theorem fgyrus_shows {channel : Channel} (selects : Selects addr reg)
    (at' : block addr = .fgyrus channel) (inputs : FgyrusLb.Inputs)
    (onBus : FgyrusLb.regAddr inputs = regOf addr) :
    (FgyrusLb.nextRegData (state.cortex.fgyrusLb channel) inputs).setWidth 32 =
      value state reg := by
  unfold FgyrusLb.nextRegData
  rw [onBus]
  cases reg <;> obtain ⟨selected, place⟩ := selects
  case fgyrusControl other =>
    obtain rfl : other = channel := Block.fgyrus.inj (selected.symm.trans at')
    rw [place.2]
    exact widen_twice (show 1 ≤ 8 by decide) _
  case fgyrusPostNorm other =>
    obtain rfl : other = channel := Block.fgyrus.inj (selected.symm.trans at')
    rw [place.2]
    exact widen_twice (show 4 ≤ 8 by decide) _
  all_goals
    rw [at'] at selected
    cases selected

theorem i2c_shows (selects : Selects addr reg) (at' : block addr = .i2c) :
    (I2cMaster.nextLbRdData state.acortex.i2c (regOf addr)).setWidth 32 = value state reg := by
  unfold I2cMaster.nextLbRdData
  cases reg <;> obtain ⟨selected, place⟩ := selects
  case i2cAddr =>
    rw [place]
    exact widen_twice (show 8 ≤ 16 by decide) _
  case i2cClkDiv =>
    rw [place]
    exact widen_twice (show 8 ≤ 16 by decide) _
  all_goals
    rw [at'] at selected
    cases selected

theorem prsr_shows (selects : Selects addr reg) (at' : block addr = .prsr) :
    (WavPrsr.nextLbRdData state.acortex.prsr (regOf addr)).setWidth 32 = value state reg := by
  unfold WavPrsr.nextLbRdData
  cases reg <;> obtain ⟨selected, place⟩ := selects
  case prsrCtrl =>
    rw [place]
    exact widen_twice (show 1 ≤ 16 by decide) _
  case prsrHdrRamRdAddr =>
    rw [place]
    exact widen_twice (show 8 ≤ 16 by decide) _
  all_goals
    rw [at'] at selected
    cases selected

theorem dac_shows (selects : Selects addr reg) (at' : block addr = .dac) :
    (Wm8731DrvrDac.nextLbRdData state.acortex.dac (regOf addr)).setWidth 32 =
      value state reg := by
  unfold Wm8731DrvrDac.nextLbRdData
  cases reg <;> obtain ⟨selected, place⟩ := selects
  case dacCtrl =>
    rw [place]
    rfl
  case dacFsDiv =>
    rw [place]
    exact widen_zeros _
  case dacMclkSel =>
    rw [place]
    rfl
  all_goals
    rw [at'] at selected
    cases selected

theorem sram_shows (selects : Selects addr reg) (at' : block addr = .sram)
    (inputs : SramLb.Inputs) (onBus : inputs.lbAddrId = regOf addr) :
    (SramLb.nextLbRdData state.acortex.sram.lb inputs).setWidth 32 = value state reg := by
  unfold SramLb.nextLbRdData
  rw [onBus]
  cases reg <;> obtain ⟨selected, place⟩ := selects
  case sramAccAddrH =>
    rw [place]
    exact widen_twice (show 2 ≤ 16 by decide) _
  case sramAccAddrL =>
    rw [place]
    rfl
  all_goals
    rw [at'] at selected
    cases selected

theorem own_shows (selects : Selects addr reg) (at' : block addr = .own)
    (inputs : AcortexLb.Inputs) (onBus : AcortexLb.blkCode inputs.request = codeOf addr) :
    (AcortexLb.nextLbRdData state.acortex.lb inputs).setWidth 32 = value state reg := by
  unfold AcortexLb.nextLbRdData
  rw [onBus]
  cases reg <;> obtain ⟨selected, place⟩ := selects
  case audioSrcSel =>
    rw [place]
    exact widen_twice (show 1 ≤ 16 by decide) _
  all_goals
    rw [at'] at selected
    cases selected

end Mux

/-! ### The data at each place -/

/-- The word that the answer to a read of `addr` carries at a place. -/
def Carries (state : State) (addr : BitVec 16) (word : BitVec 32) : Place → Prop
  | .topRd => lbRdDataOd state = word
  | .fgyrusRd channel stage =>
      block addr = .fgyrus channel ∧
        (state.cortex.fgyrusLb channel).regDataF.setWidth 32 = word ∧
        (0 < stage → (state.cortex.fgyrusLb channel).lbRdDataOd = word)
  | .vcortexRd 0 =>
      block addr = .vcortex ∧
        state.vcortex.lb.regCodeSelDelF.getLsbD 0 =
          decide (codeOf addr = VcortexTop.vcortexRegCode) ∧
        state.vcortex.lb.pwmRamSelDelF.getLsbD 0 =
          decide (codeOf addr = VcortexTop.vcortexPwmRamCode) ∧
        (codeOf addr = VcortexTop.vcortexPwmRamCode → state.vcortex.ram.latchA.setWidth 32 = word)
  | .vcortexRd 1 =>
      block addr = .vcortex ∧
        state.vcortex.lb.regCodeSelDelF.getLsbD 1 =
          decide (codeOf addr = VcortexTop.vcortexRegCode) ∧
        state.vcortex.lb.pwmRamSelDelF.getLsbD 1 =
          decide (codeOf addr = VcortexTop.vcortexPwmRamCode) ∧
        (codeOf addr = VcortexTop.vcortexPwmRamCode → state.vcortex.ram.qA.setWidth 32 = word)
  | .vcortexRd 2 => state.vcortex.lb.lbRdDataOd.setWidth 32 = word
  | .acortexRd => state.acortex.lb.lbRdDataOd.setWidth 32 = word
  | .own _ => block addr = .own
  | .i2cRd => block addr = .i2c ∧ state.acortex.i2c.lbRdDataOd.setWidth 32 = word
  | .prsrRd => block addr = .prsr ∧ state.acortex.prsr.lbRdDataOd.setWidth 32 = word
  | .dacRd => block addr = .dac ∧ state.acortex.dac.lbRdDataOd.setWidth 32 = word
  | .sramRd => block addr = .sram ∧ state.acortex.sram.lb.lbRdDataOd.setWidth 32 = word
  | _ => True

/-! ### From place to place -/

theorem code_of_block : ∀ blk code : BitVec 4,
    (blockOf blk code = .i2c → code = AcortexRegMap.i2cDriver) ∧
      (blockOf blk code = .sram → code = AcortexRegMap.sram) ∧
      (blockOf blk code = .prsr → code = AcortexRegMap.wavPrsr) ∧
      (blockOf blk code = .dac → code = AcortexRegMap.dacDrvr) := by
  decide +kernel

theorem vcortex_delay {delay : BitVec 2} {bit : Bool} :
    (if 1 = 0 then bit else (delay.extractLsb' 0 1).getLsbD (1 - 1)) = delay.getLsbD 0 := by
  rw [if_neg (by decide), BitVec.getLsbD_extractLsb']
  rfl

theorem shift_bit {size : Nat} (vec : BitVec (size + 1)) (bit : Bool) :
    (vec.extractLsb' 0 size ++ BitVec.ofBool bit).getLsbD 0 = bit := by
  rw [append_bit, if_pos rfl]

section Move

variable {state : State} {inputs : Inputs} {addr : BitVec 16} {reg : ConfigReg}

theorem fgyrus_code (selects : Selects addr reg) {channel : Channel}
    (at' : block addr = .fgyrus channel) : codeOf addr = FgyrusLb.fgyrusRegCode := by
  cases reg with
  | fgyrusControl => exact selects.2.1
  | fgyrusPostNorm => exact selects.2.1
  | _ =>
    have selected := selects.1
    rw [at'] at selected
    cases selected

section Held

variable (onBus : inputs.request.lbAddrId = addr) (selects : Selects addr reg)

include onBus selects

theorem fgyrus_regDataF {channel : Channel} (at' : block addr = .fgyrus channel) :
    ((step state inputs).cortex.fgyrusLb channel).regDataF.setWidth 32 = value state reg := by
  refine fgyrus_shows selects at'
    (CortexIrq.fgyrusLbInputs (cortexInputs state inputs) channel) ?_
  rw [← onBus]
  rfl

theorem fgyrus_lbRdDataOd {channel : Channel} (at' : block addr = .fgyrus channel) :
    ((step state inputs).cortex.fgyrusLb channel).lbRdDataOd =
      (state.cortex.fgyrusLb channel).regDataF.setWidth 32 := by
  refine if_pos ((?_ : _ = codeOf addr).trans (fgyrus_code selects at'))
  rw [← onBus]
  rfl

omit selects in
theorem vcortex_selects (state : State) :
    (step state inputs).vcortex.lb.regCodeSelDelF.getLsbD 0 =
        decide (codeOf addr = VcortexTop.vcortexRegCode) ∧
      (step state inputs).vcortex.lb.pwmRamSelDelF.getLsbD 0 =
        decide (codeOf addr = VcortexTop.vcortexPwmRamCode) := by
  rw [← onBus]
  exact ⟨shift_bit _ _, shift_bit _ _⟩

theorem vcortex_latchA (quiet : inputs.request.lbWrEnIh = false)
    (at' : block addr = .vcortex) (ram : codeOf addr = VcortexTop.vcortexPwmRamCode) :
    (step state inputs).vcortex.ram.latchA.setWidth 32 = value state reg := by
  have unwritten : VcortexTop.pwmRamWrEn (vcortexInputs inputs) = false := by
    change (_ && SynCortexLb.blkWrEnOh SynCortexLb.vcortexSelC inputs.request) = false
    rw [vcortex_wrEn, quiet, Bool.and_false, Bool.and_false]
  have shown : (step state inputs).vcortex.ram.latchA =
      state.vcortex.ram.memory ((addr.extractLsb' 0 12).extractLsb' 0 4) := by
    rw [← onBus]
    exact if_neg (ne_true_of_eq_false unwritten)
  rw [shown]
  cases reg with
  | pwmWord index =>
    rw [selects.2.2]
    rfl
  | vcortexControl =>
    have other := selects.2
    rw [ram] at other
    exact absurd other (by decide)
  | _ =>
    have selected := selects.1
    rw [at'] at selected
    cases selected

theorem i2c_lbRdDataOd (up : running state inputs = true) (at' : block addr = .i2c) :
    (step state inputs).acortex.i2c.lbRdDataOd.setWidth 32 = value state reg := by
  rw [i2c_step up, ← i2c_shows selects at', ← onBus]
  rfl

theorem prsr_lbRdDataOd (up : running state inputs = true) (at' : block addr = .prsr) :
    (step state inputs).acortex.prsr.lbRdDataOd.setWidth 32 = value state reg := by
  rw [prsr_step up, ← prsr_shows selects at', ← onBus]
  rfl

theorem dac_lbRdDataOd (up : running state inputs = true) (at' : block addr = .dac) :
    (step state inputs).acortex.dac.lbRdDataOd.setWidth 32 = value state reg := by
  rw [dac_step up, ← dac_shows selects at', ← onBus]
  rfl

theorem sram_lbRdDataOd (up : running state inputs = true) (at' : block addr = .sram) :
    (step state inputs).acortex.sram.lb.lbRdDataOd.setWidth 32 = value state reg := by
  rw [sram_step up]
  refine sram_shows selects at' (SramPort.lbInputs state.acortex.sram
    (AcortexBlocks.sramInputs (acortexInputs inputs))) ?_
  rw [← onBus]
  rfl

theorem carries_start (up : running state inputs = true)
    (quiet : inputs.request.lbWrEnIh = false) {place : Place}
    (enters : entry (.read addr) = some place) :
    Carries (step state inputs) addr (value state reg) place := by
  unfold entry at enters
  cases selected : block (Access.read addr : BusAccess).addr with
  | fgyrus channel =>
    rw [selected] at enters
    obtain rfl := Option.some.inj enters
    exact ⟨selected, fgyrus_regDataF onBus selects selected, fun later => absurd later (by decide)⟩
  | vcortex =>
    rw [selected] at enters
    obtain rfl := Option.some.inj enters
    obtain ⟨regSel, ramSel⟩ := vcortex_selects onBus state
    exact ⟨selected, regSel, ramSel, vcortex_latchA onBus selects quiet selected⟩
  | i2c =>
    rw [selected] at enters
    obtain rfl := Option.some.inj enters
    exact ⟨selected, i2c_lbRdDataOd onBus selects up selected⟩
  | sram =>
    rw [selected] at enters
    obtain rfl := Option.some.inj enters
    exact ⟨selected, sram_lbRdDataOd onBus selects up selected⟩
  | prsr =>
    rw [selected] at enters
    obtain rfl := Option.some.inj enters
    exact ⟨selected, prsr_lbRdDataOd onBus selects up selected⟩
  | dac =>
    rw [selected] at enters
    obtain rfl := Option.some.inj enters
    exact ⟨selected, dac_lbRdDataOd onBus selects up selected⟩
  | own =>
    rw [selected] at enters
    obtain rfl := Option.some.inj enters
    exact selected
  | hostReset =>
    rw [selected] at enters
    cases enters
  | unmapped =>
    rw [selected] at enters
    cases enters

/-! ### Multiplexers of two levels -/

omit selects in
theorem acortex_data (at' : block addr = .i2c ∨ block addr = .sram ∨ block addr = .prsr ∨
    block addr = .dac) :
    (step state inputs).acortex.lb.lbRdDataOd =
      match block addr with
      | .i2c => state.acortex.i2c.lbRdDataOd
      | .sram => state.acortex.sram.lb.lbRdDataOd
      | .prsr => state.acortex.prsr.lbRdDataOd
      | _ => state.acortex.dac.lbRdDataOd := by
  obtain ⟨i2c, sram, prsr, dac⟩ := code_of_block (blkOf addr) (codeOf addr)
  have code : AcortexLb.blkCode
      (AcortexBlocks.lbInputs state.acortex (acortexInputs inputs)).request = codeOf addr := by
    rw [← onBus]
    rfl
  change AcortexLb.nextLbRdData _ (AcortexBlocks.lbInputs state.acortex (acortexInputs inputs)) = _
  unfold AcortexLb.nextLbRdData
  rcases at' with at' | at' | at' | at'
  · rw [code, i2c at', at']
    rfl
  · rw [code, sram at', at']
    rfl
  · rw [code, prsr at', at']
    rfl
  · rw [code, dac at', at']
    rfl

theorem own_data (at' : block addr = .own) :
    (step state inputs).acortex.lb.lbRdDataOd.setWidth 32 = value state reg := by
  refine own_shows selects at' (AcortexBlocks.lbInputs state.acortex (acortexInputs inputs)) ?_
  rw [← onBus]
  rfl

omit onBus in
theorem vcortex_data (at' : block addr = .vcortex)
    (valid : state.vcortex.lb.rdDelayVec.getLsbD 1 = true)
    (regSel : state.vcortex.lb.regCodeSelDelF.getLsbD 1 =
      decide (codeOf addr = VcortexTop.vcortexRegCode))
    (ramSel : state.vcortex.lb.pwmRamSelDelF.getLsbD 1 =
      decide (codeOf addr = VcortexTop.vcortexPwmRamCode))
    (ram : codeOf addr = VcortexTop.vcortexPwmRamCode →
      state.vcortex.ram.qA.setWidth 32 = value state reg) :
    (step state inputs).vcortex.lb.lbRdDataOd.setWidth 32 = value state reg := by
  change (VcortexTop.VcortexLb.nextLbRdData state.vcortex.lb state.vcortex.ram.qA).setWidth 32 =
    value state reg
  unfold VcortexTop.VcortexLb.nextLbRdData
  rw [if_pos valid, regSel, ramSel]
  cases reg with
  | vcortexControl =>
    rw [if_pos (decide_eq_true selects.2)]
    exact widen_flag state.vcortex.lb.pwmGenEnOh
  | pwmWord index =>
    rw [if_neg, if_pos (decide_eq_true selects.2.1)]
    · exact ram selects.2.1
    · rw [selects.2.1]
      decide
  | _ =>
    have selected := selects.1
    rw [at'] at selected
    cases selected

end Held

theorem top_data (state : State) (inputs : Inputs) :
    lbRdDataOd (step state inputs) =
      if occupied state .acortexRd then state.acortex.lb.lbRdDataOd.setWidth 32
      else if occupied state (.vcortexRd 2) then state.vcortex.lb.lbRdDataOd.setWidth 32
      else if occupied state (.fgyrusRd .lchnl 3) then
        (state.cortex.fgyrusLb .lchnl).lbRdDataOd
      else if occupied state (.fgyrusRd .rchnl 3) then
        (state.cortex.fgyrusLb .rchnl).lbRdDataOd
      else lbRdDataOd state :=
  rfl

/-- The word moves on together with the answer. -/
theorem carries_step (onBus : inputs.request.lbAddrId = addr)
    (selects : Selects addr reg) {place next : Place}
    (single : ∀ other, occupied state other = decide (some place = some other))
    (holds : Carries state addr (value state reg) place) (moves : advance place = some next) :
    Carries (step state inputs) addr (value state reg) next := by
  have only : ∀ other, place ≠ other → ¬ occupied state other = true := by
    intro other apart there
    rw [single] at there
    exact apart (Option.some.inj (of_decide_eq_true there))
  have here : occupied state place = true := by
    rw [single]
    exact decide_eq_true rfl
  cases place with
  | topRd => cases moves
  | topWr => cases moves
  | fgyrusWr channel | vcortexWr | acortexWr =>
    obtain rfl := Option.some.inj moves
    trivial
  | fgyrusRd channel stage =>
    obtain ⟨at', word, shown⟩ := holds
    have later : ((step state inputs).cortex.fgyrusLb channel).regDataF.setWidth 32 =
        value state reg := fgyrus_regDataF onBus selects at'
    have data : ((step state inputs).cortex.fgyrusLb channel).lbRdDataOd = value state reg :=
      (fgyrus_lbRdDataOd onBus selects at').trans word
    match stage with
    | 0 =>
      obtain rfl := Option.some.inj moves
      exact ⟨at', later, fun _ => data⟩
    | 1 =>
      obtain rfl := Option.some.inj moves
      exact ⟨at', later, fun _ => data⟩
    | 2 =>
      obtain rfl := Option.some.inj moves
      exact ⟨at', later, fun _ => data⟩
    | 3 =>
      obtain rfl := Option.some.inj moves
      refine (top_data state inputs).trans ?_
      rw [if_neg (only .acortexRd nofun), if_neg (only (.vcortexRd 2) nofun)]
      cases channel with
      | lchnl => exact (if_pos here).trans (shown (by decide))
      | rchnl =>
        rw [if_neg (only (.fgyrusRd .lchnl 3) nofun)]
        exact (if_pos here).trans (shown (by decide))
  | vcortexRd stage =>
    match stage with
    | 0 =>
      obtain rfl := Option.some.inj moves
      obtain ⟨at', regSel, ramSel, word⟩ := holds
      refine ⟨at', ?_, ?_, word⟩
      · exact (append_bit _ _ 1).trans (vcortex_delay.trans regSel)
      · exact (append_bit _ _ 1).trans (vcortex_delay.trans ramSel)
    | 1 =>
      obtain rfl := Option.some.inj moves
      obtain ⟨at', regSel, ramSel, word⟩ := holds
      exact vcortex_data selects at' here regSel ramSel word
    | 2 =>
      obtain rfl := Option.some.inj moves
      refine (top_data state inputs).trans ?_
      rw [if_neg (only .acortexRd nofun)]
      exact (if_pos here).trans holds
  | acortexRd =>
    obtain rfl := Option.some.inj moves
    exact (if_pos here).trans holds
  | own stage =>
    match stage with
    | 0 =>
      obtain rfl := Option.some.inj moves
      exact holds
    | 1 =>
      obtain rfl := Option.some.inj moves
      exact holds
    | 2 =>
      obtain rfl := Option.some.inj moves
      exact own_data onBus selects holds
  | i2cRd =>
    obtain rfl := Option.some.inj moves
    obtain ⟨at', word⟩ := holds
    have data : (step state inputs).acortex.lb.lbRdDataOd = _ := acortex_data onBus (.inl at')
    rw [at'] at data
    exact (congrArg (BitVec.setWidth 32) data).trans word
  | prsrRd =>
    obtain rfl := Option.some.inj moves
    obtain ⟨at', word⟩ := holds
    have data : (step state inputs).acortex.lb.lbRdDataOd = _ :=
      acortex_data onBus (.inr (.inr (.inl at')))
    rw [at'] at data
    exact (congrArg (BitVec.setWidth 32) data).trans word
  | dacRd =>
    obtain rfl := Option.some.inj moves
    obtain ⟨at', word⟩ := holds
    have data : (step state inputs).acortex.lb.lbRdDataOd = _ :=
      acortex_data onBus (.inr (.inr (.inr at')))
    rw [at'] at data
    exact (congrArg (BitVec.setWidth 32) data).trans word
  | sramRd =>
    obtain rfl := Option.some.inj moves
    obtain ⟨at', word⟩ := holds
    have data : (step state inputs).acortex.lb.lbRdDataOd = _ :=
      acortex_data onBus (.inr (.inl at'))
    rw [at'] at data
    exact (congrArg (BitVec.setWidth 32) data).trans word
  | sramWr =>
    obtain rfl := Option.some.inj moves
    trivial

end Move

end Synesthesia.CortexTree
