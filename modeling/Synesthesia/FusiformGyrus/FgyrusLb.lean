/-
`fgyrus_lb`: local-bus registers of the FFT engine and its interrupt latch.
-/

import Synesthesia.FusiformGyrus.FgyrusFsm

namespace Synesthesia.FgyrusLb

open Synesthesia.ButterflyWing (Complex)

/-! ### Register map -/

def fgyrusRegCode : BitVec 4 := 0
def fgyrusFftRealRamCode : BitVec 4 := 1
def fgyrusFftImRamCode : BitVec 4 := 2
def fgyrusTwdleRamCode : BitVec 4 := 3
def fgyrusCordicRamCode : BitVec 4 := 4

def fgyrusControlRegAddr : BitVec 8 := 0x00
def fgyrusFsmPstateRegAddr : BitVec 8 := 0x02
def fgyrusStatusRegAddr : BitVec 8 := 0x04
def fgyrusPostNormRegAddr : BitVec 8 := 0x06

structure Lb2Ram where
  addrOd : BitVec 8
  fftRealRamWrEnOh : Bool
  fftImRamWrEnOh : Bool
  twiddleRamWrEnOh : Bool
  cordicRamWrEnOh : Bool
  fftRealRamRdEnOh : Bool
  fftImRamRdEnOh : Bool
  twiddleRamRdEnOh : Bool
  cordicRamRdEnOh : Bool
  wrDataOd : BitVec 32
deriving DecidableEq

structure State where
  fgyrusEnOh : Bool
  fgyrusPostNormOd : BitVec 4
  lb2ram : Lb2Ram
  irqOh : Bool
  lbWrValidOd : Bool
  lbRdDataOd : BitVec 32
  rdDelayVec : BitVec 4
  regDataF : BitVec 8

structure Inputs where
  fgyrusBusyIh : Bool
  fgyrusFsmPstateId : FgyrusFsm.Pstate
  fgyrusFftDoneIh : Bool
  fftRamRdDataId : Complex 32
  twiddleRamRdDataId : BitVec 32
  cordicRamRdDataId : BitVec 16
  irqRstIh : Bool
  lbRdEnIh : Bool
  lbWrEnIh : Bool
  lbAddrId : BitVec 12
  lbWrDataId : BitVec 32

def Lb2Ram.idle : Lb2Ram :=
  { addrOd := 0
    fftRealRamWrEnOh := false
    fftImRamWrEnOh := false
    twiddleRamWrEnOh := false
    cordicRamWrEnOh := false
    fftRealRamRdEnOh := false
    fftImRamRdEnOh := false
    twiddleRamRdEnOh := false
    cordicRamRdEnOh := false
    wrDataOd := 0 }

def reset : State :=
  { fgyrusEnOh := false
    fgyrusPostNormOd := 0
    lb2ram := Lb2Ram.idle
    irqOh := false
    lbWrValidOd := false
    lbRdDataOd := 0
    rdDelayVec := 0
    regDataF := BitVec.allOnes 8 }

def blockCode (inputs : Inputs) : BitVec 4 := inputs.lbAddrId.extractLsb' 8 4

def regAddr (inputs : Inputs) : BitVec 8 := inputs.lbAddrId.extractLsb' 0 8

/-- The read request of one RAM, held until its data is returned. -/
def nextRamRdEn (rdEn : Bool) (code : BitVec 4) (state : State) (inputs : Inputs) : Bool :=
  if rdEn then !(!state.rdDelayVec.getLsbD 2 && state.rdDelayVec.getLsbD 3)
  else blockCode inputs == code && inputs.lbRdEnIh

def nextLb2Ram (state : State) (inputs : Inputs) : Lb2Ram :=
  { addrOd := inputs.lbAddrId.extractLsb' 0 8
    fftRealRamWrEnOh := blockCode inputs == fgyrusFftRealRamCode && inputs.lbWrEnIh
    fftImRamWrEnOh := blockCode inputs == fgyrusFftImRamCode && inputs.lbWrEnIh
    twiddleRamWrEnOh := blockCode inputs == fgyrusTwdleRamCode && inputs.lbWrEnIh
    cordicRamWrEnOh := blockCode inputs == fgyrusCordicRamCode && inputs.lbWrEnIh
    fftRealRamRdEnOh :=
      nextRamRdEn state.lb2ram.fftRealRamRdEnOh fgyrusFftRealRamCode state inputs
    fftImRamRdEnOh := nextRamRdEn state.lb2ram.fftImRamRdEnOh fgyrusFftImRamCode state inputs
    twiddleRamRdEnOh := nextRamRdEn state.lb2ram.twiddleRamRdEnOh fgyrusTwdleRamCode state inputs
    cordicRamRdEnOh := nextRamRdEn state.lb2ram.cordicRamRdEnOh fgyrusCordicRamCode state inputs
    wrDataOd := inputs.lbWrDataId }

def regWrite (addr : BitVec 8) (inputs : Inputs) : Bool :=
  blockCode inputs == fgyrusRegCode && inputs.lbWrEnIh && regAddr inputs == addr

def Pstate.code : FgyrusFsm.Pstate → BitVec 3
  | .idle => 0
  | .decimate => 1
  | .fft => 2
  | .fftWait => 3
  | .cordic => 4
  | .abs => 5

def nextRegData (state : State) (inputs : Inputs) : BitVec 8 :=
  if regAddr inputs = fgyrusControlRegAddr then (BitVec.ofBool state.fgyrusEnOh).setWidth 8
  else if regAddr inputs = fgyrusFsmPstateRegAddr then
    (Pstate.code inputs.fgyrusFsmPstateId).setWidth 8
  else if regAddr inputs = fgyrusStatusRegAddr then
    (BitVec.ofBool inputs.fgyrusBusyIh).setWidth 8
  else if regAddr inputs = fgyrusPostNormRegAddr then state.fgyrusPostNormOd.setWidth 8
  else BitVec.allOnes 8

def nextLbRdData (state : State) (inputs : Inputs) : BitVec 32 :=
  if blockCode inputs = fgyrusRegCode then state.regDataF.setWidth 32
  else if blockCode inputs = fgyrusFftRealRamCode then inputs.fftRamRdDataId.real
  else if blockCode inputs = fgyrusFftImRamCode then inputs.fftRamRdDataId.im
  else if blockCode inputs = fgyrusTwdleRamCode then inputs.twiddleRamRdDataId
  else if blockCode inputs = fgyrusCordicRamCode then inputs.cordicRamRdDataId.setWidth 32
  else state.lbRdDataOd

def lbRdValidOd (state : State) : Bool := state.rdDelayVec.getLsbD 3

def step (state : State) (inputs : Inputs) : State :=
  { fgyrusEnOh :=
      if regWrite fgyrusControlRegAddr inputs then inputs.lbWrDataId.getLsbD 0
      else state.fgyrusEnOh
    fgyrusPostNormOd :=
      if regWrite fgyrusPostNormRegAddr inputs then inputs.lbWrDataId.extractLsb' 0 4
      else state.fgyrusPostNormOd
    lb2ram := nextLb2Ram state inputs
    irqOh := if inputs.irqRstIh then false else state.irqOh || inputs.fgyrusFftDoneIh
    lbWrValidOd := inputs.lbWrEnIh
    lbRdDataOd := nextLbRdData state inputs
    rdDelayVec := state.rdDelayVec.extractLsb' 0 3 ++ BitVec.ofBool inputs.lbRdEnIh
    regDataF := nextRegData state inputs }

end Synesthesia.FgyrusLb
