/-
`vcortex_top`: pulse-width modulation of sixteen channels.

The host keeps one on-time for each channel in a RAM.  A free-running counter is
compared with the on-times of all channels; whenever it wraps, `pwm_refresh`
copies the RAM into the vector of on-times word by word.
-/

import Synesthesia.Rtl.Clocked
import Synesthesia.Rtl.DualPortRam

namespace Synesthesia.VcortexTop

open Synesthesia.Rtl

def vcortexRegCode : BitVec 4 := 0
def vcortexPwmRamCode : BitVec 4 := 1

structure Inputs where
  lbRdEnIh : Bool
  lbWrEnIh : Bool
  lbAddrId : BitVec 12
  lbWrDataId : BitVec 16
  /-- Word the RAM returns to `pwm_refresh` where the host writes. -/
  mixed : BitVec 16

structure VcortexLb where
  pwmGenEnOh : Bool
  lbWrValidOd : Bool
  lbRdDataOd : BitVec 16
  rdDelayVec : BitVec 3
  regCodeSelDelF : BitVec 2
  pwmRamSelDelF : BitVec 2

structure PwmRefresh where
  addrCntrEnF : Bool
  pwmRamRdAddrOd : BitVec 4
  ramRdDelayF : BitVec 2
  pwmLineNoF : BitVec 4
  /-- The slot of each channel in `pwm_on_vec_od`. -/
  pwmOnVecOd : BitVec 4 → BitVec 16

structure PwmGen where
  pwmCntrF : BitVec 16
  pwmRefreshOh : Bool
  /-- One line for each channel, high when the channel is on. -/
  pwmDataOd : BitVec 4 → Bool

structure State where
  lb : VcortexLb
  ram : TrueDualPortRam 4 16
  refresh : PwmRefresh
  gen : PwmGen

def reset : State :=
  { lb :=
      { pwmGenEnOh := false
        lbWrValidOd := false
        lbRdDataOd := 0
        rdDelayVec := 0
        regCodeSelDelF := 0
        pwmRamSelDelF := 0 }
    ram := TrueDualPortRam.init fun _ => 0
    refresh :=
      { addrCntrEnF := false
        pwmRamRdAddrOd := 0
        ramRdDelayF := 0
        pwmLineNoF := 0
        pwmOnVecOd := fun _ => 0 }
    gen :=
      { pwmCntrF := 0
        pwmRefreshOh := false
        pwmDataOd := fun _ => false } }

/-! ### Local bus -/

def regCodeSelC (inputs : Inputs) : Bool :=
  decide (inputs.lbAddrId.extractLsb' 8 4 = vcortexRegCode)

def pwmRamSelC (inputs : Inputs) : Bool :=
  decide (inputs.lbAddrId.extractLsb' 8 4 = vcortexPwmRamCode)

def pwmRamAddr (inputs : Inputs) : BitVec 4 := inputs.lbAddrId.extractLsb' 0 4

def pwmRamWrEn (inputs : Inputs) : Bool := pwmRamSelC inputs && inputs.lbWrEnIh

def VcortexLb.lbRdValidOd (lb : VcortexLb) : Bool := lb.rdDelayVec.getLsbD 2

def VcortexLb.nextLbRdData (lb : VcortexLb) (pwmRamRdDataId : BitVec 16) : BitVec 16 :=
  if lb.rdDelayVec.getLsbD 1 then
    if lb.regCodeSelDelF.getLsbD 1 then (0 : BitVec 15) ++ BitVec.ofBool lb.pwmGenEnOh
    else if lb.pwmRamSelDelF.getLsbD 1 then pwmRamRdDataId
    else 0xdead
  else lb.lbRdDataOd

def VcortexLb.step (lb : VcortexLb) (inputs : Inputs) (pwmRamRdDataId : BitVec 16) :
    VcortexLb :=
  { pwmGenEnOh :=
      if regCodeSelC inputs && inputs.lbWrEnIh then inputs.lbWrDataId.getLsbD 0
      else lb.pwmGenEnOh
    lbWrValidOd := inputs.lbWrEnIh
    lbRdDataOd := lb.nextLbRdData pwmRamRdDataId
    rdDelayVec := lb.rdDelayVec.extractLsb' 0 2 ++ BitVec.ofBool inputs.lbRdEnIh
    regCodeSelDelF := lb.regCodeSelDelF.extractLsb' 0 1 ++ BitVec.ofBool (regCodeSelC inputs)
    pwmRamSelDelF := lb.pwmRamSelDelF.extractLsb' 0 1 ++ BitVec.ofBool (pwmRamSelC inputs) }

/-! ### Refresh -/

def PwmRefresh.step (refresh : PwmRefresh) (pwmRefreshIh : Bool) (pwmRamRdDataId : BitVec 16) :
    PwmRefresh :=
  { addrCntrEnF :=
      if refresh.addrCntrEnF then decide (refresh.pwmRamRdAddrOd ≠ 15) else pwmRefreshIh
    pwmRamRdAddrOd := if refresh.addrCntrEnF then refresh.pwmRamRdAddrOd + 1 else 0
    ramRdDelayF :=
      refresh.ramRdDelayF.extractLsb' 0 1 ++ BitVec.ofBool refresh.addrCntrEnF
    pwmLineNoF :=
      if pwmRefreshIh then 0
      else refresh.pwmLineNoF + BitVec.ofNat 4 (refresh.ramRdDelayF.getLsbD 1).toNat
    pwmOnVecOd :=
      store refresh.pwmOnVecOd (refresh.ramRdDelayF.getLsbD 1) refresh.pwmLineNoF
        pwmRamRdDataId }

/-! ### Comparison -/

def PwmGen.step (gen : PwmGen) (pwmEnIh : Bool) (pwmOnVecId : BitVec 4 → BitVec 16) : PwmGen :=
  { pwmCntrF := if pwmEnIh then gen.pwmCntrF + 1 else 0
    pwmRefreshOh := decide (gen.pwmCntrF = 0xffff)
    pwmDataOd := fun channel => decide (gen.pwmCntrF ≤ pwmOnVecId channel) }

def ramPorts (state : State) (inputs : Inputs) : TrueDualPortRam.Ports 4 16 :=
  { addressA := pwmRamAddr inputs
    dataA := inputs.lbWrDataId
    wrenA := pwmRamWrEn inputs
    addressB := state.refresh.pwmRamRdAddrOd
    mixed := inputs.mixed }

def step (state : State) (inputs : Inputs) : State :=
  { lb := state.lb.step inputs state.ram.qA
    ram := state.ram.step (ramPorts state inputs)
    refresh := state.refresh.step state.gen.pwmRefreshOh state.ram.qB
    gen := state.gen.step state.lb.pwmGenEnOh state.refresh.pwmOnVecOd }

section Run

variable (inputs : Nat → Inputs)

def stateAt : Nat → State := run step reset inputs

theorem stateAt_succ (t : Nat) : stateAt inputs (t + 1) = step (stateAt inputs t) (inputs t) := rfl

end Run

end Synesthesia.VcortexTop
