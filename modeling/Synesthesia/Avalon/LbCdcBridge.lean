/-
`syn_lb_cdc_bridge`: Avalon transactions carried to the local bus and back.

The two clocks are modelled by their edges, in any order.  The request FIFO and
the response FIFO are `dcfifo` megafunctions.  The head of the request FIFO is
not taken when it is issued but when it is answered.
-/

import Synesthesia.Rtl.AsyncFifo

namespace Synesthesia.LbCdcBridge

open Synesthesia.Rtl

structure State where
  lbRdEnOh : Bool
  lbWrEnOh : Bool
  lbAddrOd : BitVec 16
  lbWrDataOd : BitVec 32
  waitForRspF : Bool
  avReadDataValidOh : Bool
  avReadDataOd : BitVec 32
  xtnFf : AsyncFifo (BitVec 96)
  rspFf : AsyncFifo (BitVec 32)

structure AvInputs where
  avReadIh : Bool
  avWriteIh : Bool
  avAddrId : BitVec 18
  avWriteDataId : BitVec 32
  /-- Freed places of the request FIFO the write side learns of. -/
  xtnRelease : Nat
  /-- Words of the response FIFO the read side learns of. -/
  rspLearn : Nat
  /-- Output of the response FIFO while it shows no word. -/
  rspUnknown : BitVec 32

structure LbInputs where
  lbRdValidId : Bool
  lbRdDataId : BitVec 32
  lbWrValidId : Bool
  /-- Words of the request FIFO the read side learns of. -/
  xtnLearn : Nat
  /-- Output of the request FIFO while it shows no word. -/
  xtnUnknown : BitVec 96

inductive Edge where
  | av (inputs : AvInputs)
  | lb (inputs : LbInputs)

def reset : State :=
  { lbRdEnOh := false
    lbWrEnOh := false
    lbAddrOd := 0
    lbWrDataOd := 0
    waitForRspF := false
    avReadDataValidOh := false
    avReadDataOd := 0
    xtnFf := AsyncFifo.init
    rspFf := AsyncFifo.init }

def ffDepth : Nat := 128

def xtnFfWrData (inputs : AvInputs) : BitVec 96 :=
  (0 : BitVec 31) ++ BitVec.ofBool inputs.avReadIh ++ inputs.avWriteDataId ++
    (0 : BitVec 14) ++ inputs.avAddrId

def xtnFfFull (state : State) : Bool := state.xtnFf.wrfull ffDepth

def xtnFfWrEnC (state : State) (inputs : AvInputs) : Bool :=
  (inputs.avReadIh || inputs.avWriteIh) && !xtnFfFull state

def avWaitReqOh (state : State) : Bool := xtnFfFull state

/-- `P_XTN_FF_RDWR_SAMPLE`. -/
def isRead (xtn : BitVec 96) : Bool := xtn.getLsbD 64

def xtnAddr (xtn : BitVec 96) : BitVec 16 := xtn.extractLsb' 2 16

def xtnData (xtn : BitVec 96) : BitVec 32 := xtn.extractLsb' 32 32

/-- An answer of the local bus takes the head of the request FIFO. -/
def xtnFfRdReq (inputs : LbInputs) : Bool := inputs.lbRdValidId || inputs.lbWrValidId

def avEdge (state : State) (inputs : AvInputs) : State :=
  let rspFfEmpty := state.rspFf.rdempty
  { state with
    avReadDataValidOh := !rspFfEmpty
    avReadDataOd :=
      if rspFfEmpty then state.avReadDataOd else state.rspFf.q inputs.rspUnknown
    xtnFf := state.xtnFf.writeEdge (xtnFfWrEnC state inputs) (xtnFfWrData inputs)
      inputs.xtnRelease
    rspFf := state.rspFf.readEdge (!rspFfEmpty) inputs.rspLearn }

/-- The concatenation of the read data with 16 zero bits is cut to the width of the port. -/
def lbEdge (state : State) (inputs : LbInputs) : State :=
  let xtnFfEmpty := state.xtnFf.rdempty
  let xtn := state.xtnFf.q inputs.xtnUnknown
  { state with
    waitForRspF :=
      if state.waitForRspF then !(inputs.lbRdValidId || inputs.lbWrValidId)
      else !xtnFfEmpty
    lbRdEnOh := !xtnFfEmpty && !state.waitForRspF && isRead xtn
    lbWrEnOh := !xtnFfEmpty && !state.waitForRspF && !isRead xtn
    lbAddrOd := xtnAddr xtn
    lbWrDataOd := xtnData xtn
    xtnFf := state.xtnFf.readEdge (xtnFfRdReq inputs) inputs.xtnLearn
    rspFf := state.rspFf.writeEdge inputs.lbRdValidId
      (((0 : BitVec 16) ++ inputs.lbRdDataId).setWidth 32) 0 }

def step (state : State) : Edge → State
  | .av inputs => avEdge state inputs
  | .lb inputs => lbEdge state inputs

theorem rspData_eq (word : BitVec 32) : ((0 : BitVec 16) ++ word).setWidth 32 = word := by
  apply BitVec.eq_of_getLsbD_eq
  intro i inside
  simp only [BitVec.getLsbD_setWidth, BitVec.getLsbD_append]
  grind

end Synesthesia.LbCdcBridge
