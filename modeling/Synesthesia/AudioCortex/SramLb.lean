/-
`sram_lb`: registers of the SRAM block.

A write to the access control register raises a request to the arbiter, and its
acknowledge is held back until the arbiter has granted a write or the word of a
read has been taken over.  Every other write is acknowledged in the next clock.
-/

import Mathlib.Logic.Basic
import Synesthesia.AudioCortex.AcortexRegMap

namespace Synesthesia.SramLb

open Synesthesia.AcortexRegMap

structure Regs where
  lbRdValidOd : Bool
  lbRdDataOd : BitVec 16
  lbWrValidOd : Bool
  sramMmRdEnOh : Bool
  sramMmWrEnOh : Bool
  sramMmAddrOd : BitVec 18
  sramFfOflwFlagF : Bool
  sramFfUrunFlagF : Bool
  sramDataF : BitVec 16
  sramMmRdValid1d : Bool

structure Inputs where
  lbRdEnIh : Bool
  lbWrEnIh : Bool
  lbAddrId : BitVec 8
  lbWrDataId : BitVec 16
  sramFfRdEnIh : Bool
  sramFfWrEnIh : Bool
  sramFfFullIh : Bool
  sramFfEmptyIh : Bool
  sramFfAemptyIh : Bool
  sramMmRdValidId : Bool
  sramMmRdDataId : BitVec 16
  sramArbMmGrantIh : Bool

def reset : Regs :=
  { lbRdValidOd := false
    lbRdDataOd := 0
    lbWrValidOd := false
    sramMmRdEnOh := false
    sramMmWrEnOh := false
    sramMmAddrOd := 0
    sramFfOflwFlagF := false
    sramFfUrunFlagF := false
    sramDataF := 0
    sramMmRdValid1d := false }

def sramMmWrDataOd (regs : Regs) : BitVec 16 := regs.sramDataF

def nextLbRdData (regs : Regs) (inputs : Inputs) : BitVec 16 :=
  if inputs.lbAddrId = sramStatusRegAddr then
    BitVec.ofNat 11 0 ++ BitVec.ofBool regs.sramFfOflwFlagF ++
      BitVec.ofBool regs.sramFfUrunFlagF ++ BitVec.ofBool inputs.sramFfFullIh ++
      BitVec.ofBool inputs.sramFfAemptyIh ++ BitVec.ofBool inputs.sramFfEmptyIh
  else if inputs.lbAddrId = sramAccCtrlRegAddr then
    BitVec.ofNat 14 0 ++ BitVec.ofBool regs.sramMmWrEnOh ++ BitVec.ofBool regs.sramMmRdEnOh
  else if inputs.lbAddrId = sramAccAddrHRegAddr then
    (regs.sramMmAddrOd.extractLsb' 16 2).setWidth 16
  else if inputs.lbAddrId = sramAccAddrLRegAddr then regs.sramMmAddrOd.extractLsb' 0 16
  else if inputs.lbAddrId = sramAccDataRegAddr then regs.sramDataF
  else regs.lbRdDataOd

/-- One of the two request flags, which bit `bit` of the control register raises
and `done` takes back. -/
def nextSramMmEn (flag done : Bool) (bit : Nat) (inputs : Inputs) : Bool :=
  if flag then !done
  else if inputs.lbAddrId = sramAccCtrlRegAddr then
    inputs.lbWrEnIh && inputs.lbWrDataId.getLsbD bit
  else flag

def nextSramMmAddr (regs : Regs) (inputs : Inputs) : BitVec 18 :=
  if inputs.lbWrEnIh then
    (if inputs.lbAddrId = sramAccAddrHRegAddr then inputs.lbWrDataId.extractLsb' 0 2
      else regs.sramMmAddrOd.extractLsb' 16 2) ++
    (if inputs.lbAddrId = sramAccAddrLRegAddr then inputs.lbWrDataId
      else regs.sramMmAddrOd.extractLsb' 0 16)
  else regs.sramMmAddrOd

def nextSramData (regs : Regs) (inputs : Inputs) : BitVec 16 :=
  if inputs.lbWrEnIh && inputs.lbAddrId == sramAccDataRegAddr then inputs.lbWrDataId
  else if inputs.sramMmRdValidId then inputs.sramMmRdDataId
  else regs.sramDataF

def step (regs : Regs) (inputs : Inputs) : Regs :=
  { lbRdValidOd := inputs.lbRdEnIh
    lbRdDataOd := nextLbRdData regs inputs
    lbWrValidOd :=
      if inputs.lbAddrId = sramAccCtrlRegAddr then
        regs.sramMmWrEnOh && inputs.sramArbMmGrantIh || regs.sramMmRdValid1d
      else inputs.lbWrEnIh
    sramMmRdEnOh := nextSramMmEn regs.sramMmRdEnOh inputs.sramMmRdValidId 0 inputs
    sramMmWrEnOh := nextSramMmEn regs.sramMmWrEnOh inputs.sramArbMmGrantIh 1 inputs
    sramMmAddrOd := nextSramMmAddr regs inputs
    sramFfOflwFlagF := regs.sramFfOflwFlagF || inputs.sramFfWrEnIh && inputs.sramFfFullIh
    sramFfUrunFlagF := regs.sramFfUrunFlagF || inputs.sramFfRdEnIh && inputs.sramFfEmptyIh
    sramDataF := nextSramData regs inputs
    sramMmRdValid1d := inputs.sramMmRdValidId }

/-! ### What a write elsewhere leaves -/

theorem sramMmAddr_halves (addr : BitVec 18) :
    addr.extractLsb' 16 2 ++ addr.extractLsb' 0 16 = addr := by
  apply BitVec.eq_of_getLsbD_eq
  intro i inside
  rw [BitVec.getLsbD_append, BitVec.getLsbD_extractLsb', BitVec.getLsbD_extractLsb']
  by_cases low : i < 16
  · simp [low]
  · simp [low, show i - 16 < 2 by omega, show 16 + (i - 16) = i by omega]

theorem nextSramMmAddr_high (regs : Regs) (inputs : Inputs) :
    (nextSramMmAddr regs inputs).extractLsb' 16 2 =
      if inputs.lbWrEnIh = true ∧ inputs.lbAddrId = sramAccAddrHRegAddr then
        inputs.lbWrDataId.extractLsb' 0 2
      else regs.sramMmAddrOd.extractLsb' 16 2 := by
  unfold nextSramMmAddr
  by_cases write : inputs.lbWrEnIh = true
  · rw [if_pos write, BitVec.extractLsb'_append_eq_left]
    simp only [write, true_and]
  · rw [if_neg write, if_neg fun both => write both.1]

theorem nextSramMmAddr_low (regs : Regs) (inputs : Inputs) :
    (nextSramMmAddr regs inputs).extractLsb' 0 16 =
      if inputs.lbWrEnIh = true ∧ inputs.lbAddrId = sramAccAddrLRegAddr then inputs.lbWrDataId
      else regs.sramMmAddrOd.extractLsb' 0 16 := by
  unfold nextSramMmAddr
  by_cases write : inputs.lbWrEnIh = true
  · rw [if_pos write, BitVec.extractLsb'_append_eq_right]
    simp only [write, true_and]
  · rw [if_neg write, if_neg fun both => write both.1]

theorem nextSramMmAddr_kept {regs : Regs} {inputs : Inputs}
    (kept : inputs.lbWrEnIh = true → inputs.lbAddrId ≠ sramAccAddrHRegAddr ∧
      inputs.lbAddrId ≠ sramAccAddrLRegAddr) :
    nextSramMmAddr regs inputs = regs.sramMmAddrOd := by
  unfold nextSramMmAddr
  by_cases write : inputs.lbWrEnIh = true
  · rw [if_pos write, if_neg (kept write).1, if_neg (kept write).2, sramMmAddr_halves]
  · exact if_neg write

theorem not_sramData_write {inputs : Inputs}
    (kept : inputs.lbWrEnIh = true → inputs.lbAddrId ≠ sramAccDataRegAddr) :
    (inputs.lbWrEnIh && inputs.lbAddrId == sramAccDataRegAddr) = false := by
  cases write : inputs.lbWrEnIh with
  | false => rfl
  | true => exact beq_eq_false_iff_ne.mpr (kept write)

theorem nextSramData_kept {regs : Regs} {inputs : Inputs}
    (kept : inputs.lbWrEnIh = true → inputs.lbAddrId ≠ sramAccDataRegAddr) :
    nextSramData regs inputs =
      if inputs.sramMmRdValidId then inputs.sramMmRdDataId else regs.sramDataF := by
  unfold nextSramData
  rw [not_sramData_write kept]
  rfl

end Synesthesia.SramLb
