/-
The SRAM path of `acortex_top`: arbiter, FIFO controller, driver and memory.

Every request of the slot owner goes through the same two registers, one in the
arbiter and one in the driver, so the memory sees the requests in grant order.
The proofs follow that order: `scheduled` is the memory with both registered
requests already applied, and one clock edge turns `scheduled` into the
contents the driver is about to leave behind.
-/

import Synesthesia.Rtl.Clocked
import Synesthesia.Rtl.Memory
import Synesthesia.AudioCortex.SramFfCntrlr
import Synesthesia.AudioCortex.SramArb
import Synesthesia.AudioCortex.SramDrvr

namespace Synesthesia.SramPath

open Synesthesia.Rtl

structure State where
  arb : SramArb.Regs
  ff : SramFfCntrlr.Regs 18
  drvr : SramDrvr.Regs
  memory : BitVec 18 → BitVec 16

structure Inputs where
  lbStDataId : BitVec 16
  lbStValidIh : Bool
  lbMmRdEnIh : Bool
  lbMmWrEnIh : Bool
  lbMmAddrId : BitVec 18
  lbMmWrDataId : BitVec 16
  imRdReqIh : Bool

def reset (contents : BitVec 18 → BitVec 16) : State :=
  { arb := SramArb.reset
    ff := SramFfCntrlr.reset
    drvr := SramDrvr.reset
    memory := contents }

def arbInputs (state : State) (inputs : Inputs) : SramArb.Inputs :=
  { lbStDataId := inputs.lbStDataId
    lbStValidIh := inputs.lbStValidIh
    lbMmRdEnIh := inputs.lbMmRdEnIh
    lbMmWrEnIh := inputs.lbMmWrEnIh
    lbMmAddrId := inputs.lbMmAddrId
    lbMmWrDataId := inputs.lbMmWrDataId
    imRdReqIh := inputs.imRdReqIh
    sramFfRdAddrId := SramFfCntrlr.sramRdAddrOd state.ff
    sramFfWrAddrId := SramFfCntrlr.sramWrAddrOd state.ff
    sramFfFullIh := state.ff.sramFullOh
    sramFfEmptyIh := state.ff.sramEmptyOh }

def ffInputs (state : State) (inputs : Inputs) : SramFfCntrlr.Inputs :=
  { sramFfRdEnIh := SramArb.sramFfRdEnOh state.arb inputs.imRdReqIh
    sramFfWrEnIh := SramArb.sramFfWrEnOh state.arb inputs.lbStValidIh }

def drvrInputs (state : State) : SramDrvr.Inputs :=
  { address := state.arb.sramAddrOd
    byteenable := 3
    chipselect := state.arb.sramWrEnOh || state.arb.sramRdEnOh
    read := state.arb.sramRdEnOh
    write := state.arb.sramWrEnOh
    writedata := state.arb.sramWrDataOd }

def step (state : State) (inputs : Inputs) : State :=
  { arb := SramArb.step state.arb (arbInputs state inputs)
    ff := SramFfCntrlr.step state.ff (ffInputs state inputs)
    drvr := SramDrvr.step state.drvr state.memory (drvrInputs state)
    memory := SramDrvr.sram state.drvr state.memory }

/-- `im_rd_data_od` and `lb_mm_rd_data_od`. -/
def sramRdDataId (state : State) : BitVec 16 := state.drvr.readdata

/-- A streamed word is taken over in this cycle: valid, ready and not full. -/
def stAccept (state : State) (inputs : Inputs) : Bool :=
  inputs.lbStValidIh && SramArb.lbStReadyOh state.arb && !state.ff.sramFullOh

def imIssue (state : State) (inputs : Inputs) : Bool :=
  SramArb.arbImSelC state.arb && inputs.imRdReqIh && !state.ff.sramEmptyOh

def mmRead (state : State) (inputs : Inputs) : Bool :=
  SramArb.lbMmArbGrantOh state.arb && inputs.lbMmRdEnIh

def mmWrite (state : State) (inputs : Inputs) : Bool :=
  SramArb.lbMmArbGrantOh state.arb && inputs.lbMmWrEnIh

/-- Number of streamed words not yet read, from the two pointers. -/
def occupancy (state : State) : Nat :=
  (state.ff.sramWrPtrF - state.ff.sramRdPtrF).toNat

def Live (state : State) (address : BitVec 18) : Prop :=
  ∃ offset, offset < occupancy state ∧
    BitVec.ofNat 18 (state.ff.sramRdPtrF.toNat + offset) = address

/-! ### Requests in grant order -/

/-- Memory after the request held by the driver has reached it. -/
def landed (state : State) : BitVec 18 → BitVec 16 :=
  SramDrvr.sram state.drvr state.memory

/-- Memory after the request held by the arbiter as well. -/
def scheduled (state : State) : BitVec 18 → BitVec 16 :=
  store (landed state) state.arb.sramWrEnOh state.arb.sramAddrOd
    state.arb.sramWrDataOd

/-- The strobes of the driver follow the two enables it registered, and a read
being tracked is really on its way. -/
structure Wired (state : State) : Prop where
  lb : state.drvr.sramLbN = state.drvr.sramCeN
  ub : state.drvr.sramUbN = state.drvr.sramCeN
  ce : state.drvr.sramCeN = (state.drvr.sramOeN && state.drvr.sramWeN)
  im1d : state.arb.arbImRdReq1d = true → state.arb.sramRdEnOh = true
  mm1d : state.arb.arbAvMmRdReq1d = true → state.arb.sramRdEnOh = true
  im2d : state.arb.arbImRdReq2d = true → state.drvr.sramOeN = false
  mm2d : state.arb.arbAvMmRdReq2d = true → state.drvr.sramOeN = false

theorem reset_wired (contents : BitVec 18 → BitVec 16) : Wired (reset contents) := by
  constructor <;> simp [reset, SramArb.reset, SramDrvr.reset]

theorem step_wired {state : State} (wired : Wired state) (inputs : Inputs) :
    Wired (step state inputs) := by
  constructor
  · simp [step, SramDrvr.step, drvrInputs]
  · simp [step, SramDrvr.step, drvrInputs]
  · cases write : state.arb.sramWrEnOh <;> cases read : state.arb.sramRdEnOh <;>
      simp [step, SramDrvr.step, drvrInputs, write, read]
  · simp only [step, SramArb.step, SramArb.request, arbInputs, SramArb.arbImSelC]
    cases state.arb.arbSelF <;> simp
  · simp only [step, SramArb.step, SramArb.request, arbInputs,
      SramArb.lbMmArbGrantOh, SramArb.arbAvMmSel1C, SramArb.arbAvMmSel2C]
    cases state.arb.arbSelF <;> simp
  · intro tracked
    have read := wired.im1d tracked
    simp [step, SramDrvr.step, drvrInputs, read]
  · intro tracked
    have read := wired.mm1d tracked
    simp [step, SramDrvr.step, drvrInputs, read]

theorem landed_eq {state : State} (wired : Wired state) :
    landed state = store state.memory (!state.drvr.sramWeN)
      state.drvr.sramAddr state.drvr.writedataReg := by
  have lb := wired.lb
  have ub := wired.ub
  have ce := wired.ce
  cases we : state.drvr.sramWeN with
  | true => simp [landed, SramDrvr.sram, we]
  | false =>
      rw [we, Bool.and_false] at ce
      rw [ce] at lb ub
      simp [landed, SramDrvr.sram, SramDrvr.sramDq, lb, ub, ce, we]

theorem sramDq_eq_landed {state : State} (wired : Wired state)
    (reading : state.drvr.sramOeN = false) :
    SramDrvr.sramDq state.drvr state.memory =
      landed state state.drvr.sramAddr := by
  have lb := wired.lb
  have ub := wired.ub
  have ce := wired.ce
  rw [reading, Bool.false_and] at ce
  rw [ce] at lb ub
  rw [landed_eq wired]
  cases we : state.drvr.sramWeN <;>
    simp [SramDrvr.sramDq, reading, ce, lb, ub, we]

theorem landed_step {state : State} (wired : Wired state) (inputs : Inputs) :
    landed (step state inputs) = scheduled state := by
  rw [landed_eq (step_wired wired inputs)]
  cases write : state.arb.sramWrEnOh <;>
    simp [step, SramDrvr.step, drvrInputs, scheduled, landed, write]

theorem scheduled_step {state : State} (wired : Wired state) (inputs : Inputs) :
    scheduled (step state inputs) =
      store (scheduled state)
        (SramArb.request state.arb (arbInputs state inputs)).wrEn
        (SramArb.request state.arb (arbInputs state inputs)).addr
        (SramArb.request state.arb (arbInputs state inputs)).wrData := by
  rw [scheduled, landed_step wired]
  rfl

end Synesthesia.SramPath
