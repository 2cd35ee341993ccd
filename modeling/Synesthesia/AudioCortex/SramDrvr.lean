/-
`sram_drvr` and the asynchronous 2^18 x 16 SRAM behind it.

The driver registers the request, drives the data bus while the write strobe
is low and samples the bus while the output strobe is low.  Byte enables are
tied to `11` and the chip select is asserted with either request, as
`acortex_top` wires the instance.
-/

import Synesthesia.Rtl.Memory

namespace Synesthesia.SramDrvr

open Synesthesia.Rtl

structure Regs where
  readdata : BitVec 16
  writedataReg : BitVec 16
  sramAddr : BitVec 18
  sramLbN : Bool
  sramUbN : Bool
  sramCeN : Bool
  sramOeN : Bool
  sramWeN : Bool

structure Inputs where
  address : BitVec 18
  byteenable : BitVec 2
  chipselect : Bool
  read : Bool
  write : Bool
  writedata : BitVec 16

def reset : Regs :=
  { readdata := 0
    writedataReg := 0
    sramAddr := 0
    sramLbN := true
    sramUbN := true
    sramCeN := true
    sramOeN := true
    sramWeN := true }

/-- One byte of each of two words, chosen by its lane strobe. -/
def lanes (ubN lbN : Bool) (selected other : BitVec 16) : BitVec 16 :=
  (if ubN then other else selected).extractLsb' 8 8 ++
    (if lbN then other else selected).extractLsb' 0 8

/-- The shared data bus.  The driver owns it while the write strobe is low,
the memory while it is selected for reading; a floating bus reads as zero. -/
def sramDq (regs : Regs) (memory : BitVec 18 → BitVec 16) : BitVec 16 :=
  if !regs.sramWeN then regs.writedataReg
  else if !regs.sramCeN && !regs.sramOeN then
    lanes regs.sramUbN regs.sramLbN (memory regs.sramAddr) 0
  else 0

def sram (regs : Regs) (memory : BitVec 18 → BitVec 16) : BitVec 18 → BitVec 16 :=
  store memory (!regs.sramCeN && !regs.sramWeN) regs.sramAddr
    (lanes regs.sramUbN regs.sramLbN (sramDq regs memory) (memory regs.sramAddr))

def step (regs : Regs) (memory : BitVec 18 → BitVec 16) (inputs : Inputs) : Regs :=
  { readdata := if regs.sramOeN then regs.readdata else sramDq regs memory
    writedataReg := inputs.writedata
    sramAddr := inputs.address
    sramLbN := !(inputs.byteenable.getLsbD 0 && inputs.chipselect)
    sramUbN := !(inputs.byteenable.getLsbD 1 && inputs.chipselect)
    sramCeN := !inputs.chipselect
    sramOeN := !(inputs.read && inputs.chipselect)
    sramWeN := !(inputs.write && inputs.chipselect) }

@[simp] theorem lanes_selected (selected other : BitVec 16) :
    lanes false false selected other = selected := by
  apply BitVec.eq_of_getLsbD_eq
  intro index inside
  simp only [lanes, Bool.false_eq_true, if_false, BitVec.getLsbD_append,
    BitVec.getLsbD_extractLsb']
  by_cases low : index < 8
  · simp [low]
  · simp [low, show index - 8 < 8 by omega, show 8 + (index - 8) = index by omega]

end Synesthesia.SramDrvr
