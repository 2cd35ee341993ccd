/-
`syn_cortex_lb`: the top of the local bus.

The four highest address bits select one of four blocks, whose responses are
combined in registers of this module.
-/

import Mathlib.Data.BitVec

namespace Synesthesia.SynCortexLb

/-! ### Register map -/

def fgyrusLchnlBlk : BitVec 4 := 0
def fgyrusRchnlBlk : BitVec 4 := 1
def acortexBlk : BitVec 4 := 2
def vcortexBlk : BitVec 4 := 3
def irqClearBlk : BitVec 4 := 4

structure Request where
  lbRdEnIh : Bool
  lbWrEnIh : Bool
  lbAddrId : BitVec 16
  lbWrDataId : BitVec 32

structure Response where
  wrValid : Bool
  rdValid : Bool
  rdData : BitVec 32

structure Inputs where
  request : Request
  blkAcortex : Response
  blkVcortex : Response
  blkFgyrusLchnl : Response
  blkFgyrusRchnl : Response

structure State where
  lbRdValidOd : Bool
  lbRdDataOd : BitVec 32
  lbWrValidOd : Bool

def reset : State :=
  { lbRdValidOd := false
    lbRdDataOd := 0
    lbWrValidOd := false }

def blkCodeW (request : Request) : BitVec 4 := request.lbAddrId.extractLsb' 12 4

def selC (blk : BitVec 4) (request : Request) : Bool := blkCodeW request == blk

def acortexSelC : Request → Bool := selC acortexBlk
def vcortexSelC : Request → Bool := selC vcortexBlk
def fgyrusLchnlSelC : Request → Bool := selC fgyrusLchnlBlk
def fgyrusRchnlSelC : Request → Bool := selC fgyrusRchnlBlk

/-- Both branches of the conditional in the source are `1'b0`. -/
def irqRstOh (request : Request) : Bool :=
  if blkCodeW request = irqClearBlk then false else false

def blkWrEnOh (sel : Request → Bool) (request : Request) : Bool :=
  sel request && request.lbWrEnIh

def blkRdEnOh (sel : Request → Bool) (request : Request) : Bool :=
  sel request && request.lbRdEnIh

def blkAddrOd (request : Request) : BitVec 12 := request.lbAddrId.extractLsb' 0 12

def blkWrDataOd (request : Request) : BitVec 32 := request.lbWrDataId

def nextLbRdData (state : State) (inputs : Inputs) : BitVec 32 :=
  if inputs.blkAcortex.rdValid then inputs.blkAcortex.rdData
  else if inputs.blkVcortex.rdValid then inputs.blkVcortex.rdData
  else if inputs.blkFgyrusLchnl.rdValid then inputs.blkFgyrusLchnl.rdData
  else if inputs.blkFgyrusRchnl.rdValid then inputs.blkFgyrusRchnl.rdData
  else state.lbRdDataOd

def step (state : State) (inputs : Inputs) : State :=
  { lbRdValidOd :=
      inputs.blkAcortex.rdValid || inputs.blkVcortex.rdValid ||
        inputs.blkFgyrusLchnl.rdValid || inputs.blkFgyrusRchnl.rdValid
    lbRdDataOd := nextLbRdData state inputs
    lbWrValidOd :=
      inputs.blkAcortex.wrValid || inputs.blkVcortex.wrValid ||
        inputs.blkFgyrusLchnl.wrValid || inputs.blkFgyrusRchnl.wrValid }

end Synesthesia.SynCortexLb
