/-
`sram_arb`: time-division arbiter in front of the external SRAM.

The Avalon-ST writer and the internal reader own slots of sixteen clocks each;
between them the memory-mapped port gets a single clock.  The request of the
slot owner is registered towards the SRAM driver, and two shift registers
follow a read until its data is back.
-/

import Synesthesia.Rtl.Clocked

namespace Synesthesia.SramArb

open Synesthesia.Rtl

inductive ArbSel where
  | avSt
  | avMm1
  | im
  | avMm2
  deriving DecidableEq, Repr

structure Regs where
  arbSelF : ArbSel
  arbCntrF : BitVec 4
  sramWrEnOh : Bool
  sramRdEnOh : Bool
  sramAddrOd : BitVec 18
  sramWrDataOd : BitVec 16
  arbAvMmRdReq1d : Bool
  arbImRdReq1d : Bool
  arbAvMmRdReq2d : Bool
  arbImRdReq2d : Bool
  imRdValidOh : Bool
  lbMmRdValidOd : Bool

structure Inputs where
  lbStDataId : BitVec 16
  lbStValidIh : Bool
  lbMmRdEnIh : Bool
  lbMmWrEnIh : Bool
  lbMmAddrId : BitVec 18
  lbMmWrDataId : BitVec 16
  imRdReqIh : Bool
  sramFfRdAddrId : BitVec 18
  sramFfWrAddrId : BitVec 18
  sramFfFullIh : Bool
  sramFfEmptyIh : Bool

def reset : Regs :=
  { arbSelF := .avSt
    arbCntrF := 0
    sramWrEnOh := false
    sramRdEnOh := false
    sramAddrOd := 0
    sramWrDataOd := 0
    arbAvMmRdReq1d := false
    arbImRdReq1d := false
    arbAvMmRdReq2d := false
    arbImRdReq2d := false
    imRdValidOh := false
    lbMmRdValidOd := false }

def arbAvStSelC (regs : Regs) : Bool := decide (regs.arbSelF = .avSt)

def arbAvMmSel1C (regs : Regs) : Bool := decide (regs.arbSelF = .avMm1)

def arbAvMmSel2C (regs : Regs) : Bool := decide (regs.arbSelF = .avMm2)

def arbImSelC (regs : Regs) : Bool := decide (regs.arbSelF = .im)

def lbStReadyOh (regs : Regs) : Bool := arbAvStSelC regs

def lbMmArbGrantOh (regs : Regs) : Bool :=
  arbAvMmSel1C regs || arbAvMmSel2C regs

def sramFfRdEnOh (regs : Regs) (imRdReqIh : Bool) : Bool :=
  if arbImSelC regs then imRdReqIh else false

def sramFfWrEnOh (regs : Regs) (lbStValidIh : Bool) : Bool :=
  if arbAvStSelC regs then lbStValidIh else false

/-- The memory-mapped port gets a single clock, and the counter waits for it. -/
def nextArbCntr (sel : ArbSel) (cntr : BitVec 4) : BitVec 4 :=
  if cntr == 15 then 0
  else if !(decide (sel = .avMm1) || decide (sel = .avMm2)) then cntr + 1
  else cntr

def nextArbSel (sel : ArbSel) (cntr : BitVec 4) : ArbSel :=
  match sel with
  | .avSt => if cntr == 15 then .avMm1 else .avSt
  | .avMm1 => .im
  | .im => if cntr == 15 then .avMm2 else .im
  | .avMm2 => .avSt

structure Request where
  wrEn : Bool
  rdEn : Bool
  addr : BitVec 18
  wrData : BitVec 16

def request (regs : Regs) (inputs : Inputs) : Request :=
  match regs.arbSelF with
  | .avSt =>
      { wrEn := inputs.lbStValidIh && !inputs.sramFfFullIh
        rdEn := false
        addr := inputs.sramFfWrAddrId
        wrData := inputs.lbStDataId }
  | .avMm1 | .avMm2 =>
      { wrEn := inputs.lbMmWrEnIh
        rdEn := inputs.lbMmRdEnIh
        addr := inputs.lbMmAddrId
        wrData := inputs.lbMmWrDataId }
  | .im =>
      { wrEn := false
        rdEn := inputs.imRdReqIh && !inputs.sramFfEmptyIh
        addr := inputs.sramFfRdAddrId
        wrData := regs.sramWrDataOd }

def step (regs : Regs) (inputs : Inputs) : Regs :=
  let next := request regs inputs
  { arbSelF := nextArbSel regs.arbSelF regs.arbCntrF
    arbCntrF := nextArbCntr regs.arbSelF regs.arbCntrF
    sramWrEnOh := next.wrEn
    sramRdEnOh := next.rdEn
    sramAddrOd := next.addr
    sramWrDataOd := next.wrData
    arbAvMmRdReq1d := lbMmArbGrantOh regs && inputs.lbMmRdEnIh
    arbImRdReq1d := arbImSelC regs && inputs.imRdReqIh && !inputs.sramFfEmptyIh
    arbAvMmRdReq2d := regs.arbAvMmRdReq1d
    arbImRdReq2d := regs.arbImRdReq1d
    imRdValidOh := regs.arbImRdReq2d
    lbMmRdValidOd := regs.arbAvMmRdReq2d }

/-! ### Slot schedule -/

/-- Owner of the memory in each of the 34 clocks of one rotation. -/
def slotOwner (clock : Nat) : ArbSel :=
  if clock < 16 then .avSt
  else if clock < 17 then .avMm1
  else if clock < 33 then .im
  else .avMm2

def slotCntr (clock : Nat) : BitVec 4 :=
  if clock < 16 then BitVec.ofNat 4 clock
  else if clock < 17 then 0
  else if clock < 33 then BitVec.ofNat 4 (clock - 17)
  else 0

theorem slot_next : ∀ clock : Fin 34,
    nextArbSel (slotOwner clock) (slotCntr clock) = slotOwner ((clock + 1) % 34) ∧
      nextArbCntr (slotOwner clock) (slotCntr clock) =
        slotCntr ((clock + 1) % 34) := by
  decide

/-- The slot owner depends on the clock count alone, whatever the requests. -/
theorem run_slot (inputs : Nat → Inputs) (t : Nat) :
    (run step reset inputs t).arbSelF = slotOwner (t % 34) ∧
      (run step reset inputs t).arbCntrF = slotCntr (t % 34) := by
  induction t with
  | zero => exact ⟨rfl, rfl⟩
  | succ t ih =>
      have next := slot_next ⟨t % 34, Nat.mod_lt t (by decide)⟩
      have clock : (t + 1) % 34 = (t % 34 + 1) % 34 := by omega
      rw [run_succ, clock]
      change nextArbSel (run step reset inputs t).arbSelF
          (run step reset inputs t).arbCntrF = _ ∧
        nextArbCntr (run step reset inputs t).arbSelF
          (run step reset inputs t).arbCntrF = _
      rw [ih.1, ih.2]
      exact next

end Synesthesia.SramArb
