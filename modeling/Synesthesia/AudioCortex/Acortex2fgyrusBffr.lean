/-
`acortex2fgyrus_bffr`: the ping-pong buffer between a PCM source and an FFT engine.

Both halves hold 128 samples.  The highest bit of the write pointer selects the
half that is written, and with it, combinationally, the half that is read.
-/

import Synesthesia.AudioCortex.PulseSyncTggl
import Synesthesia.Rtl.DualPortRam

namespace Synesthesia.Acortex2fgyrusBffr

open Synesthesia.Rtl

structure State where
  ramWptrF : BitVec 8
  bffrSel1d : Bool
  pcmRam0 : DualPortRam 7 32
  pcmRam1 : DualPortRam 7 32
  psync : PulseSyncTggl.State

structure Inputs where
  acortexPcmWrEnIh : Bool
  acortexPcmDataId : BitVec 32
  fgyrusPcmRdAddrId : BitVec 7
  /-- Words of the two RAMs when their ports meet. -/
  mixed0 : BitVec 32
  mixed1 : BitVec 32

/-- Power-up.  The contents of the RAMs are arbitrary. -/
def reset (contents0 contents1 : BitVec 7 → BitVec 32) : State :=
  { ramWptrF := 0
    bffrSel1d := false
    pcmRam0 := DualPortRam.init contents0
    pcmRam1 := DualPortRam.init contents1
    psync := PulseSyncTggl.reset }

def resetAcortex (state : State) : State :=
  { state with
    ramWptrF := 0
    bffrSel1d := false
    psync := PulseSyncTggl.resetA state.psync }

def wrHalf (state : State) : Bool := state.ramWptrF.getLsbD 7

def wrAddress (state : State) : BitVec 7 := state.ramWptrF.extractLsb' 0 7

def pulseA (state : State) (inputs : Inputs) : Bool :=
  wrAddress state == BitVec.allOnes 7 && inputs.acortexPcmWrEnIh

def fgyrusPcmRdyOh (state : State) : Bool := PulseSyncTggl.pulseBOh state.psync

def fgyrusPcmDataOd (state : State) : BitVec 32 :=
  if wrHalf state then state.pcmRam0.q else state.pcmRam1.q

def ramPorts (state : State) (inputs : Inputs) (wren : Bool) (mixed : BitVec 32) :
    DualPortRam.Ports 7 32 :=
  { data := inputs.acortexPcmDataId
    rdaddress := inputs.fgyrusPcmRdAddrId
    wraddress := wrAddress state
    wren := wren
    mixed := mixed }

def step (state : State) (inputs : Inputs) : State :=
  { ramWptrF := state.ramWptrF + BitVec.ofNat 8 inputs.acortexPcmWrEnIh.toNat
    bffrSel1d := wrHalf state
    pcmRam0 :=
      state.pcmRam0.step
        (ramPorts state inputs (inputs.acortexPcmWrEnIh && !wrHalf state) inputs.mixed0)
    pcmRam1 :=
      state.pcmRam1.step
        (ramPorts state inputs (inputs.acortexPcmWrEnIh && wrHalf state) inputs.mixed1)
    psync := PulseSyncTggl.step state.psync (pulseA state inputs) }

end Synesthesia.Acortex2fgyrusBffr
