/-
`fgyrus_top`: sequencer, butterfly, RAMs and local-bus registers wired together.

The part that computes the transform (sequencer, butterfly, FFT caches and
twiddle RAM) is kept as a unit of its own, the engine.  The PCM RAM is outside:
its output is an input here.
-/

import Synesthesia.FusiformGyrus.FgyrusLb
import Synesthesia.Rtl.DualPortRam

namespace Synesthesia.FftEngine

open Synesthesia.Rtl
open Synesthesia.ButterflyWing (Complex)
open Synesthesia.FgyrusLb (Lb2Ram)

structure State where
  fsm : FgyrusFsm.State
  wing : ButterflyWing.State
  fftRealRam : DualPortRam 7 32
  fftImRam : DualPortRam 7 32
  twiddleRam : DualPortRam 7 32

structure Inputs where
  fgyrusEnIh : Bool
  fgyrusPostNormId : BitVec 4
  pcmRdyIh : Bool
  pcmRamRdDataId : BitVec 32
  cordicRamRdDataId : BitVec 16
  lb2ram : Lb2Ram
  /-- Words of the three RAMs when their ports meet. -/
  fftRealMixed : BitVec 32
  fftImMixed : BitVec 32
  twiddleMixed : BitVec 32

def reset (sampleRealIsZero3d : Bool) (real im twiddle : BitVec 7 → BitVec 32) : State :=
  { fsm := FgyrusFsm.reset sampleRealIsZero3d
    wing := ButterflyWing.reset
    fftRealRam := DualPortRam.init real
    fftImRam := DualPortRam.init im
    twiddleRam := DualPortRam.init twiddle }

def fftRamRdData (state : State) : Complex 32 :=
  { real := state.fftRealRam.q
    im := state.fftImRam.q }

/-- The upper half of a twiddle word is the real part; ten bits of each are used. -/
def twdlFactor (word : BitVec 32) : Complex 10 :=
  { real := word.extractLsb' 16 10
    im := word.extractLsb' 0 10 }

def fsmInputs (state : State) (inputs : Inputs) : FgyrusFsm.Inputs :=
  { fgyrusEnIh := inputs.fgyrusEnIh
    fgyrusPostNormId := inputs.fgyrusPostNormId
    fgyrusPcmRdyIh := inputs.pcmRdyIh
    pcmRamRdDataId := inputs.pcmRamRdDataId
    fftRamRdDataId := fftRamRdData state
    cordicRamRdDataId := inputs.cordicRamRdDataId
    fftDataId := state.wing.dataOd
    fftDataRdyIh := state.wing.dataRdyOh }

def wingInputs (state : State) : ButterflyWing.Inputs :=
  { sampleAId := state.fsm.sampleAOd
    sampleBId := state.fsm.sampleBOd
    twdlFactorId := twdlFactor state.twiddleRam.q
    samplesRdyIh := state.fsm.samplesRdyOh }

/-- Ports of a RAM shared with the local bus, which comes first. -/
def sharedPorts (lbWrEn lbRdEn : Bool) (lb2ram : Lb2Ram) (wrEn : Bool) (wrAddr rdAddr : BitVec 7)
    (wrData mixed : BitVec 32) : DualPortRam.Ports 7 32 :=
  { data := if lbWrEn then lb2ram.wrDataOd else wrData
    wraddress := if lbWrEn then lb2ram.addrOd.extractLsb' 0 7 else wrAddr
    wren := lbWrEn || wrEn
    rdaddress := if lbRdEn then lb2ram.addrOd.extractLsb' 0 7 else rdAddr
    mixed := mixed }

def fftRealPorts (state : State) (inputs : Inputs) : DualPortRam.Ports 7 32 :=
  sharedPorts inputs.lb2ram.fftRealRamWrEnOh inputs.lb2ram.fftRealRamRdEnOh inputs.lb2ram
    state.fsm.fftRamWrRealEnOh state.fsm.fftRamWrAddrOd state.fsm.fftRamRdAddrOd
    state.fsm.fftRamWrRealDataOd inputs.fftRealMixed

def fftImPorts (state : State) (inputs : Inputs) : DualPortRam.Ports 7 32 :=
  sharedPorts inputs.lb2ram.fftImRamWrEnOh inputs.lb2ram.fftImRamRdEnOh inputs.lb2ram
    state.fsm.fftRamWrImEnOh state.fsm.fftRamWrAddrOd state.fsm.fftRamRdAddrOd
    state.fsm.fftRamWrImDataOd inputs.fftImMixed

def twiddlePorts (state : State) (inputs : Inputs) : DualPortRam.Ports 7 32 :=
  { data := inputs.lb2ram.wrDataOd
    wraddress := inputs.lb2ram.addrOd.extractLsb' 0 7
    wren := inputs.lb2ram.twiddleRamWrEnOh
    rdaddress :=
      if inputs.lb2ram.twiddleRamRdEnOh then inputs.lb2ram.addrOd.extractLsb' 0 7
      else state.fsm.twiddleRamRdAddrOd
    mixed := inputs.twiddleMixed }

def step (state : State) (inputs : Inputs) : State :=
  { fsm := FgyrusFsm.step state.fsm (fsmInputs state inputs)
    wing := ButterflyWing.step state.wing (wingInputs state)
    fftRealRam := state.fftRealRam.step (fftRealPorts state inputs)
    fftImRam := state.fftImRam.step (fftImPorts state inputs)
    twiddleRam := state.twiddleRam.step (twiddlePorts state inputs) }

end Synesthesia.FftEngine

namespace Synesthesia.FgyrusTop

open Synesthesia.Rtl

structure State where
  engine : FftEngine.State
  cordicRam : DualPortRam 8 16
  lb : FgyrusLb.State

structure Inputs where
  pcmRdyIh : Bool
  pcmRamRdDataId : BitVec 32
  irqRstIh : Bool
  lbRdEnIh : Bool
  lbWrEnIh : Bool
  lbAddrId : BitVec 12
  lbWrDataId : BitVec 32
  fftRealMixed : BitVec 32
  fftImMixed : BitVec 32
  twiddleMixed : BitVec 32
  cordicMixed : BitVec 16

def reset (sampleRealIsZero3d : Bool) (real im twiddle : BitVec 7 → BitVec 32)
    (cordic : BitVec 8 → BitVec 16) : State :=
  { engine := FftEngine.reset sampleRealIsZero3d real im twiddle
    cordicRam := DualPortRam.init cordic
    lb := FgyrusLb.reset }

def engineInputs (state : State) (inputs : Inputs) : FftEngine.Inputs :=
  { fgyrusEnIh := state.lb.fgyrusEnOh
    fgyrusPostNormId := state.lb.fgyrusPostNormOd
    pcmRdyIh := inputs.pcmRdyIh
    pcmRamRdDataId := inputs.pcmRamRdDataId
    cordicRamRdDataId := state.cordicRam.q
    lb2ram := state.lb.lb2ram
    fftRealMixed := inputs.fftRealMixed
    fftImMixed := inputs.fftImMixed
    twiddleMixed := inputs.twiddleMixed }

def lbInputs (state : State) (inputs : Inputs) : FgyrusLb.Inputs :=
  { fgyrusBusyIh := state.engine.fsm.fgyrusBusyOh
    fgyrusFsmPstateId := state.engine.fsm.fsmPstate
    fgyrusFftDoneIh := state.engine.fsm.fgyrusFftDoneOh
    fftRamRdDataId := FftEngine.fftRamRdData state.engine
    twiddleRamRdDataId := state.engine.twiddleRam.q
    cordicRamRdDataId := state.cordicRam.q
    irqRstIh := inputs.irqRstIh
    lbRdEnIh := inputs.lbRdEnIh
    lbWrEnIh := inputs.lbWrEnIh
    lbAddrId := inputs.lbAddrId
    lbWrDataId := inputs.lbWrDataId }

def cordicPorts (state : State) (inputs : Inputs) : DualPortRam.Ports 8 16 :=
  { data := state.lb.lb2ram.wrDataOd.extractLsb' 0 16
    wraddress := state.lb.lb2ram.addrOd
    wren := state.lb.lb2ram.cordicRamWrEnOh
    rdaddress :=
      if state.lb.lb2ram.cordicRamRdEnOh then state.lb.lb2ram.addrOd
      else state.engine.fsm.cordicRamRdAddrOd
    mixed := inputs.cordicMixed }

def step (state : State) (inputs : Inputs) : State :=
  { engine := FftEngine.step state.engine (engineInputs state inputs)
    cordicRam := state.cordicRam.step (cordicPorts state inputs)
    lb := FgyrusLb.step state.lb (lbInputs state inputs) }

def stateAt (sampleRealIsZero3d : Bool) (real im twiddle : BitVec 7 → BitVec 32)
    (cordic : BitVec 8 → BitVec 16) (inputs : Nat → Inputs) : Nat → State :=
  run step (reset sampleRealIsZero3d real im twiddle cordic) inputs

end Synesthesia.FgyrusTop
