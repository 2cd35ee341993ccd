/-
`sram_ff_cntrlr`: read and write pointers of the FIFO kept in the external
SRAM, with registered full, empty and almost-empty flags.

The address width is a parameter, as in the source.  The flags are computed
from the Gray codes of the next pointer values, so they are registers that
describe the pointers of the same cycle.
-/

import Synesthesia.Rtl.Clocked
import Synesthesia.Rtl.Gray

namespace Synesthesia.SramFfCntrlr

open Synesthesia.Rtl

structure Regs (width : Nat) where
  sramRdPtrF : BitVec (width + 1)
  sramWrPtrF : BitVec (width + 1)
  sramFullOh : Bool
  sramEmptyOh : Bool
  sramAemptyOh : Bool

structure Inputs where
  sramFfRdEnIh : Bool
  sramFfWrEnIh : Bool

variable {width : Nat}

def reset : Regs width :=
  { sramRdPtrF := 0
    sramWrPtrF := 0
    sramFullOh := false
    sramEmptyOh := true
    sramAemptyOh := true }

def incRdAddrC (regs : Regs width) (inputs : Inputs) : Bool :=
  inputs.sramFfRdEnIh && !regs.sramEmptyOh

def incWrAddrC (regs : Regs width) (inputs : Inputs) : Bool :=
  inputs.sramFfWrEnIh && !regs.sramFullOh

def sramRdPtrN (regs : Regs width) (inputs : Inputs) : BitVec (width + 1) :=
  regs.sramRdPtrF + BitVec.ofNat _ (incRdAddrC regs inputs).toNat

def sramWrPtrN (regs : Regs width) (inputs : Inputs) : BitVec (width + 1) :=
  regs.sramWrPtrF + BitVec.ofNat _ (incWrAddrC regs inputs).toNat

def sramRdAddrOd (regs : Regs width) : BitVec width :=
  regs.sramRdPtrF.setWidth width

def sramWrAddrOd (regs : Regs width) : BitVec width :=
  regs.sramWrPtrF.setWidth width

def fullCompare (write read : BitVec (width + 1)) : Bool :=
  (gray write).extractLsb' (width - 1) 2 ==
      ~~~ (gray read).extractLsb' (width - 1) 2 &&
    (gray write).extractLsb' 0 (width - 1) ==
      (gray read).extractLsb' 0 (width - 1)

def step (regs : Regs width) (inputs : Inputs) : Regs width :=
  let read := sramRdPtrN regs inputs
  let write := sramWrPtrN regs inputs
  { sramRdPtrF := read
    sramWrPtrF := write
    sramFullOh := fullCompare write read
    sramEmptyOh := gray read == gray write
    sramAemptyOh :=
      (gray write).extractLsb' (width - 1) 2 ==
        (gray read).extractLsb' (width - 1) 2 }

/-! ### Occupancy -/

/-- The pointers and flags after `writes` effective writes and `reads`
effective reads. -/
structure Counts (regs : Regs width) (writes reads : Nat) : Prop where
  rdPtr : regs.sramRdPtrF = BitVec.ofNat _ reads
  wrPtr : regs.sramWrPtrF = BitVec.ofNat _ writes
  lower : reads ≤ writes
  upper : writes ≤ reads + 2 ^ width
  full : regs.sramFullOh = decide (writes = reads + 2 ^ width)
  empty : regs.sramEmptyOh = decide (writes = reads)

theorem reset_counts : Counts (reset : Regs width) 0 0 :=
  { rdPtr := rfl
    wrPtr := rfl
    lower := Nat.le_refl 0
    upper := by simp
    full := by simp [reset, (Nat.two_pow_pos width).ne]
    empty := by simp [reset] }

theorem ofNat_eq_iff_of_window (writes reads : Nat) (lower : reads ≤ writes)
    (upper : writes ≤ reads + 2 ^ width) :
    (BitVec.ofNat (width + 1) reads = BitVec.ofNat (width + 1) writes) ↔
      writes = reads := by
  have double : 2 ^ (width + 1) = 2 * 2 ^ width := by rw [Nat.pow_succ, Nat.mul_comm]
  have positive : 0 < 2 ^ width := Nat.two_pow_pos width
  constructor
  · intro same
    have values := congrArg BitVec.toNat same
    rw [BitVec.toNat_ofNat, BitVec.toNat_ofNat, double] at values
    have apart : (writes - reads) % (2 * 2 ^ width) = 0 := by
      rw [← Nat.sub_mod_eq_zero_of_mod_eq values.symm]
    rw [Nat.mod_eq_of_lt (by omega)] at apart
    omega
  · intro same
    rw [same]

/-- Empty is exact: the pointers stay within one memory of each other, so
equal Gray codes mean equal counts. -/
theorem emptyFlag_eq (writes reads : Nat) (lower : reads ≤ writes)
    (upper : writes ≤ reads + 2 ^ width) :
    (gray (BitVec.ofNat (width + 1) reads) ==
        gray (BitVec.ofNat (width + 1) writes)) =
      decide (writes = reads) := by
  rw [Bool.eq_iff_iff, beq_iff_eq, decide_eq_true_iff,
    ← ofNat_eq_iff_of_window writes reads lower upper]
  exact ⟨gray_injective, fun same => by rw [same]⟩

theorem fullFlag_eq (positive : 0 < width) (writes reads : Nat)
    (lower : reads ≤ writes) (upper : writes ≤ reads + 2 ^ width) :
    fullCompare (BitVec.ofNat (width + 1) writes)
        (BitVec.ofNat (width + 1) reads) =
      decide (writes = reads + 2 ^ width) := by
  rw [Bool.eq_iff_iff, fullCompare, Bool.and_eq_true, beq_iff_eq, beq_iff_eq,
    gray_compare_full positive, decide_eq_true_iff]
  have shifted : BitVec.ofNat (width + 1) reads + BitVec.twoPow (width + 1) width =
      BitVec.ofNat (width + 1) (reads + 2 ^ width) := by
    apply BitVec.eq_of_toNat_eq
    simp [BitVec.toNat_twoPow, Nat.add_mod]
  rw [shifted, ofNat_eq_iff_of_window (reads + 2 ^ width) writes upper (by omega)]
  exact eq_comm

theorem step_counts (positive : 0 < width) {regs : Regs width} {writes reads : Nat}
    (counts : Counts regs writes reads) (inputs : Inputs) :
    Counts (step regs inputs)
      (writes + (incWrAddrC regs inputs).toNat)
      (reads + (incRdAddrC regs inputs).toNat) := by
  have writeFits : (incWrAddrC regs inputs).toNat + writes ≤ reads + 2 ^ width := by
    have upper := counts.upper
    have flag := counts.full
    cases increment : incWrAddrC regs inputs with
    | false => simpa using upper
    | true =>
        have open' : regs.sramFullOh = false := by
          simp only [incWrAddrC, Bool.and_eq_true, Bool.not_eq_true'] at increment
          exact increment.2
        rw [open'] at flag
        have notFull : writes ≠ reads + 2 ^ width := of_decide_eq_false flag.symm
        simp only [Bool.toNat_true]
        omega
  have readFits : reads + (incRdAddrC regs inputs).toNat ≤ writes := by
    have lower := counts.lower
    have flag := counts.empty
    cases increment : incRdAddrC regs inputs with
    | false => simpa using lower
    | true =>
        have open' : regs.sramEmptyOh = false := by
          simp only [incRdAddrC, Bool.and_eq_true, Bool.not_eq_true'] at increment
          exact increment.2
        rw [open'] at flag
        have notEmpty : writes ≠ reads := of_decide_eq_false flag.symm
        simp only [Bool.toNat_true]
        omega
  have readNext : sramRdPtrN regs inputs =
      BitVec.ofNat _ (reads + (incRdAddrC regs inputs).toNat) := by
    rw [sramRdPtrN, counts.rdPtr, BitVec.ofNat_add]
  have writeNext : sramWrPtrN regs inputs =
      BitVec.ofNat _ (writes + (incWrAddrC regs inputs).toNat) := by
    rw [sramWrPtrN, counts.wrPtr, BitVec.ofNat_add]
  have lower : reads + (incRdAddrC regs inputs).toNat ≤
      writes + (incWrAddrC regs inputs).toNat := by omega
  have upper : writes + (incWrAddrC regs inputs).toNat ≤
      reads + (incRdAddrC regs inputs).toNat + 2 ^ width := by omega
  refine
    { rdPtr := readNext
      wrPtr := writeNext
      lower := lower
      upper := upper
      full := ?_
      empty := ?_ }
  · simp only [step, readNext, writeNext]
    exact fullFlag_eq positive _ _ lower upper
  · simp only [step, readNext, writeNext]
    exact emptyFlag_eq _ _ lower upper

theorem Counts.rdAddr {regs : Regs width} {writes reads : Nat}
    (counts : Counts regs writes reads) :
    sramRdAddrOd regs = BitVec.ofNat width reads := by
  rw [sramRdAddrOd, counts.rdPtr]
  apply BitVec.eq_of_toNat_eq
  simp only [BitVec.toNat_setWidth, BitVec.toNat_ofNat]
  exact Nat.mod_mod_of_dvd _ (Nat.pow_dvd_pow 2 (Nat.le_succ width))

theorem Counts.wrAddr {regs : Regs width} {writes reads : Nat}
    (counts : Counts regs writes reads) :
    sramWrAddrOd regs = BitVec.ofNat width writes := by
  rw [sramWrAddrOd, counts.wrPtr]
  apply BitVec.eq_of_toNat_eq
  simp only [BitVec.toNat_setWidth, BitVec.toNat_ofNat]
  exact Nat.mod_mod_of_dvd _ (Nat.pow_dvd_pow 2 (Nat.le_succ width))

end Synesthesia.SramFfCntrlr
