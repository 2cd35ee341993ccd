/-
The tree of local buses: `syn_cortex_lb`, the two `fgyrus_lb`, `vcortex_top` and the
blocks of `acortex_top`.

The FFT engines and the audio block are free to do anything in any clock.
-/

import Synesthesia.AudioCortex.AcortexBlocks
import Synesthesia.FpgaTop.CortexIrq
import Synesthesia.VisualCortex.VcortexTop

namespace Synesthesia.CortexTree

open Synesthesia.Rtl
open Synesthesia.SynCortexLb (Request Response)
open Synesthesia.CortexIrq (Channel Engine)

structure State where
  cortex : CortexIrq.State
  vcortex : VcortexTop.State
  acortex : AcortexBlocks.State

structure Activity where
  engine : Channel → Engine
  audio : AcortexBlocks.Activity
  pwmMixed : BitVec 16

structure Inputs where
  request : Request
  activity : Activity

structure Contents where
  sram : BitVec 18 → BitVec 16
  header : BitVec 8 → BitVec 16
  pwm : BitVec 4 → BitVec 16

def reset (contents : Contents) : State :=
  { cortex := CortexIrq.reset
    vcortex := { VcortexTop.reset with ram := TrueDualPortRam.init contents.pwm }
    acortex := AcortexBlocks.reset contents.sram contents.header }

/-! ### Wiring -/

def acortexRequest (request : Request) : AcortexLb.Request :=
  { lbRdEnIh := SynCortexLb.blkRdEnOh SynCortexLb.acortexSelC request
    lbWrEnIh := SynCortexLb.blkWrEnOh SynCortexLb.acortexSelC request
    lbAddrId := SynCortexLb.blkAddrOd request
    lbWrDataId := (SynCortexLb.blkWrDataOd request).extractLsb' 0 16 }

def acortexInputs (inputs : Inputs) : AcortexBlocks.Inputs :=
  { request := acortexRequest inputs.request
    activity := inputs.activity.audio }

def vcortexInputs (inputs : Inputs) : VcortexTop.Inputs :=
  { lbRdEnIh := SynCortexLb.blkRdEnOh SynCortexLb.vcortexSelC inputs.request
    lbWrEnIh := SynCortexLb.blkWrEnOh SynCortexLb.vcortexSelC inputs.request
    lbAddrId := SynCortexLb.blkAddrOd inputs.request
    lbWrDataId := (SynCortexLb.blkWrDataOd inputs.request).extractLsb' 0 16
    mixed := inputs.activity.pwmMixed }

def acortexResponse (state : State) : Response :=
  { wrValid := state.acortex.lb.lbWrValidOd
    rdValid := state.acortex.lb.lbRdValidOd
    rdData := state.acortex.lb.lbRdDataOd.setWidth 32 }

def vcortexResponse (state : State) : Response :=
  { wrValid := state.vcortex.lb.lbWrValidOd
    rdValid := VcortexTop.VcortexLb.lbRdValidOd state.vcortex.lb
    rdData := state.vcortex.lb.lbRdDataOd.setWidth 32 }

def cortexInputs (state : State) (inputs : Inputs) : CortexIrq.Inputs :=
  { request := inputs.request
    blkAcortex := acortexResponse state
    blkVcortex := vcortexResponse state
    engine := inputs.activity.engine }

def step (state : State) (inputs : Inputs) : State :=
  { cortex := CortexIrq.step state.cortex (cortexInputs state inputs)
    vcortex := VcortexTop.step state.vcortex (vcortexInputs inputs)
    acortex := AcortexBlocks.step state.acortex (acortexInputs inputs) }

def lbRdValidOd (state : State) : Bool := state.cortex.cortexLb.lbRdValidOd

def lbWrValidOd (state : State) : Bool := state.cortex.cortexLb.lbWrValidOd

def lbRdDataOd (state : State) : BitVec 32 := state.cortex.cortexLb.lbRdDataOd

/-! ### Places of an answer -/

/-- The delay lines of the read valids have three and four stages. -/
scoped instance threeStages : NeZero 3 := ⟨by decide⟩

scoped instance fourStages : NeZero 4 := ⟨by decide⟩

/-- A register of the tree that a request or its answer passes. -/
inductive Place where
  | topRd
  | topWr
  | fgyrusWr (channel : Channel)
  | fgyrusRd (channel : Channel) (stage : Fin 4)
  | vcortexWr
  | vcortexRd (stage : Fin 3)
  | acortexRd
  | acortexWr
  | own (stage : Fin 3)
  | i2cRd
  | prsrRd
  | dacRd
  | sramRd
  | sramWr
  deriving DecidableEq

def occupied (state : State) : Place → Bool
  | .topRd => lbRdValidOd state
  | .topWr => lbWrValidOd state
  | .fgyrusWr channel => (state.cortex.fgyrusLb channel).lbWrValidOd
  | .fgyrusRd channel stage => (state.cortex.fgyrusLb channel).rdDelayVec.getLsbD stage
  | .vcortexWr => state.vcortex.lb.lbWrValidOd
  | .vcortexRd stage => state.vcortex.lb.rdDelayVec.getLsbD stage
  | .acortexRd => state.acortex.lb.lbRdValidOd
  | .acortexWr => state.acortex.lb.lbWrValidOd
  | .own stage => state.acortex.lb.pstVecF.getLsbD stage
  | .i2cRd => state.acortex.i2c.lbRdValidOd
  | .prsrRd => state.acortex.prsr.lbRdValidOd
  | .dacRd => state.acortex.dac.lbRdValidOd
  | .sramRd => state.acortex.sram.lb.lbRdValidOd
  | .sramWr => state.acortex.sram.lb.lbWrValidOd

/-- What a place takes over from the places before it. -/
def flows (bits : Place → Bool) : Place → Bool
  | .topRd =>
      bits .acortexRd || bits (.vcortexRd 2) || bits (.fgyrusRd .lchnl 3) ||
        bits (.fgyrusRd .rchnl 3)
  | .topWr =>
      bits .acortexWr || bits .vcortexWr || bits (.fgyrusWr .lchnl) || bits (.fgyrusWr .rchnl)
  | .fgyrusWr _ => false
  | .fgyrusRd _ 0 => false
  | .fgyrusRd channel 1 => bits (.fgyrusRd channel 0)
  | .fgyrusRd channel 2 => bits (.fgyrusRd channel 1)
  | .fgyrusRd channel 3 => bits (.fgyrusRd channel 2)
  | .vcortexWr => false
  | .vcortexRd 0 => false
  | .vcortexRd 1 => bits (.vcortexRd 0)
  | .vcortexRd 2 => bits (.vcortexRd 1)
  | .acortexRd =>
      bits .i2cRd || bits .sramRd || bits .prsrRd || bits .dacRd || bits (.own 2)
  | .acortexWr => bits .sramWr
  | .own 0 => false
  | .own 1 => bits (.own 0)
  | .own 2 => bits (.own 1)
  | .i2cRd => false
  | .prsrRd => false
  | .dacRd => false
  | .sramRd => false
  | .sramWr => false

/-- What a place takes from the bus in this clock. -/
def enters (request : Request) (sramAck : Bool) : Place → Bool
  | .topRd => false
  | .topWr => false
  | .fgyrusWr channel => SynCortexLb.blkWrEnOh (CortexIrq.fgyrusSelC channel) request
  | .fgyrusRd channel stage =>
      SynCortexLb.blkRdEnOh (CortexIrq.fgyrusSelC channel) request && decide (0 = stage)
  | .vcortexWr => SynCortexLb.blkWrEnOh SynCortexLb.vcortexSelC request
  | .vcortexRd stage =>
      SynCortexLb.blkRdEnOh SynCortexLb.vcortexSelC request && decide (0 = stage)
  | .acortexRd => !AcortexLb.acortexHostRstOl (acortexRequest request)
  | .acortexWr =>
      AcortexLb.wrenC AcortexRegMap.i2cDriver (acortexRequest request) ||
        (AcortexLb.wrenC AcortexRegMap.wavPrsr (acortexRequest request) ||
          (AcortexLb.wrenC AcortexRegMap.dacDrvr (acortexRequest request) ||
            (!AcortexLb.acortexHostRstOl (acortexRequest request) ||
              AcortexLb.ownWrenC (acortexRequest request))))
  | .own stage => AcortexLb.ownRdenC (acortexRequest request) && decide (0 = stage)
  | .i2cRd => AcortexLb.rdenC AcortexRegMap.i2cDriver (acortexRequest request)
  | .prsrRd => AcortexLb.rdenC AcortexRegMap.wavPrsr (acortexRequest request)
  | .dacRd => AcortexLb.rdenC AcortexRegMap.dacDrvr (acortexRequest request)
  | .sramRd => AcortexLb.rdenC AcortexRegMap.sram (acortexRequest request)
  | .sramWr =>
      if AcortexLb.blkAddrOd (acortexRequest request) = AcortexRegMap.sramAccCtrlRegAddr then
        sramAck
      else AcortexLb.wrenC AcortexRegMap.sram (acortexRequest request)

/-- The acknowledge of a control write to the SRAM. -/
def sramAck (state : State) : Bool :=
  state.acortex.sram.lb.sramMmWrEnOh && SramPort.grant state.acortex.sram ||
    state.acortex.sram.lb.sramMmRdValid1d

def running (state : State) (inputs : Inputs) : Bool :=
  AcortexBlocks.running state.acortex (acortexInputs inputs)

theorem fgyrusRd_step (state : State) (inputs : Inputs) (channel : Channel) (stage : Fin 4) :
    occupied (step state inputs) (.fgyrusRd channel stage) =
      if stage.val = 0 then SynCortexLb.blkRdEnOh (CortexIrq.fgyrusSelC channel) inputs.request
      else (state.cortex.fgyrusLb channel).rdDelayVec.getLsbD (stage - 1) :=
  shift_getLsbD _ _ (by omega)

theorem vcortexRd_step (state : State) (inputs : Inputs) (stage : Fin 3) :
    occupied (step state inputs) (.vcortexRd stage) =
      if stage.val = 0 then SynCortexLb.blkRdEnOh SynCortexLb.vcortexSelC inputs.request
      else state.vcortex.lb.rdDelayVec.getLsbD (stage - 1) :=
  shift_getLsbD _ _ (by omega)

theorem own_step (state : State) (inputs : Inputs) (stage : Fin 3) :
    occupied (step state inputs) (.own stage) =
      if stage.val = 0 then AcortexLb.ownRdenC (acortexRequest inputs.request)
      else state.acortex.lb.pstVecF.getLsbD (stage - 1) :=
  shift_getLsbD _ _ (by omega)

theorem later_place (bit pulse : Bool) : bit = (bit || (pulse && false)) := by
  rw [Bool.and_false, Bool.or_false]

theorem occupied_step {state : State} {inputs : Inputs} (up : running state inputs = true)
    (place : Place) :
    occupied (step state inputs) place =
      (flows (occupied state) place || enters inputs.request (sramAck state) place) := by
  have blocks : (step state inputs).acortex = _ := AcortexBlocks.step_running up
  cases place with
  | topRd => exact (Bool.or_false _).symm
  | topWr => exact (Bool.or_false _).symm
  | fgyrusWr channel => rfl
  | fgyrusRd channel stage =>
      rw [fgyrusRd_step]
      match stage with
      | 0 => exact (Bool.and_true _).symm
      | 1 => exact later_place _ _
      | 2 => exact later_place _ _
      | 3 => exact later_place _ _
  | vcortexWr => rfl
  | vcortexRd stage =>
      rw [vcortexRd_step]
      match stage with
      | 0 => exact (Bool.and_true _).symm
      | 1 => exact later_place _ _
      | 2 => exact later_place _ _
  | own stage =>
      rw [own_step]
      match stage with
      | 0 => exact (Bool.and_true _).symm
      | 1 => exact later_place _ _
      | 2 => exact later_place _ _
  | acortexRd => exact Bool.or_right_comm _ _ _
  | acortexWr =>
      rw [show occupied (step state inputs) .acortexWr =
        (AcortexLb.wrenC AcortexRegMap.i2cDriver (acortexRequest inputs.request) ||
          occupied state .sramWr ||
          AcortexLb.wrenC AcortexRegMap.wavPrsr (acortexRequest inputs.request) ||
          AcortexLb.wrenC AcortexRegMap.dacDrvr (acortexRequest inputs.request) ||
          !AcortexLb.acortexHostRstOl (acortexRequest inputs.request) ||
          AcortexLb.ownWrenC (acortexRequest inputs.request)) from rfl,
        Bool.or_comm _ (occupied state .sramWr)]
      simp only [Bool.or_assoc]
      rfl
  | i2cRd =>
      unfold occupied
      rw [blocks]
      rfl
  | prsrRd =>
      unfold occupied
      rw [blocks]
      rfl
  | dacRd =>
      unfold occupied
      rw [blocks]
      rfl
  | sramRd =>
      unfold occupied
      rw [blocks]
      rfl
  | sramWr =>
      unfold occupied
      rw [blocks]
      rfl

end Synesthesia.CortexTree
