/-
The waveform of `i2c_master`.

A transaction is made of periods of `clk_div_val_f + 1` clocks: one for the start, nine
for each byte and one for the stop.  For dividers from 86 to 169 the quarter tick comes
twice in a period and the half tick once between the two, so the clock line is high
exactly from one quarter tick to the next.
-/

import Synesthesia.AudioCortex.I2cMaster
import Synesthesia.Rtl.TwoWire

namespace Synesthesia.I2cMaster

open Synesthesia.Rtl
open Synesthesia.TwoWire (Lines Event observe events frame transfer transaction sent levels pulse)
open Synesthesia.AcortexRegMap

/-! ### What a transaction holds -/

structure Xtn where
  addr : BitVec 8
  data : BitVec 16
  div : BitVec 8

def xtnOf (regs : Regs) : Xtn :=
  { addr := regs.addrF
    data := regs.dataF
    div := regs.clkDivValF }

/-- The dividers with two quarter ticks in a period, and a write address. -/
structure Xtn.Legal (xtn : Xtn) : Prop where
  slow : 86 ≤ xtn.div.toNat
  fast : xtn.div.toNat ≤ 169
  write : xtn.addr.getLsbD 0 = false

inductive Byte where
  | addr
  | data0
  | data1
  deriving DecidableEq

def Byte.pstate : Byte → Pstate
  | .addr => .addr
  | .data0 => .data0
  | .data1 => .data1

def Byte.word (xtn : Xtn) : Byte → BitVec 8
  | .addr => xtn.addr
  | .data0 => xtn.data.extractLsb' 8 8
  | .data1 => xtn.data.extractLsb' 0 8

/-! ### Ticks -/

section Ticks

variable {xtn : Xtn} (legal : xtn.Legal) {regs : Regs} (same : xtnOf regs = xtn)
  {clock : Nat} (cntr : regs.i2cPrdCntrF.toNat = clock) (inside : clock ≤ xtn.div.toNat)

include same cntr

theorem wrap_eq : wrapPrdCntrC regs = decide (clock = xtn.div.toNat) := by
  unfold wrapPrdCntrC
  rw [← same, ← cntr, Bool.eq_iff_iff, beq_iff_eq, decide_eq_true_eq, ← BitVec.toNat_inj]
  rfl

include legal inside

theorem by4_eq : i2cPrdBy4TickC regs =
    decide (clock = xtn.div.toNat / 4 ∨ clock = xtn.div.toNat / 4 + 64) := by
  have slow := legal.slow
  have fast := legal.fast
  have div : regs.clkDivValF = xtn.div := congrArg Xtn.div same
  unfold i2cPrdBy4TickC
  rw [div, Bool.eq_iff_iff, beq_iff_eq, decide_eq_true_eq, ← BitVec.toNat_inj,
    BitVec.extractLsb'_toNat, BitVec.extractLsb'_toNat, cntr, Nat.shiftRight_zero,
    Nat.shiftRight_eq_div_pow]
  omega

theorem by2_eq : i2cPrdBy2TickC regs = decide (clock = xtn.div.toNat / 2) := by
  have slow := legal.slow
  have fast := legal.fast
  have div : regs.clkDivValF = xtn.div := congrArg Xtn.div same
  unfold i2cPrdBy2TickC
  rw [div, Bool.eq_iff_iff, beq_iff_eq, decide_eq_true_eq, ← BitVec.toNat_inj,
    BitVec.extractLsb'_toNat, BitVec.extractLsb'_toNat, cntr, Nat.shiftRight_zero,
    Nat.shiftRight_eq_div_pow]
  omega

end Ticks

/-! ### Periods -/

structure Starting (xtn : Xtn) (clock : Nat) (regs : Regs) : Prop where
  same : xtnOf regs = xtn
  pstate : regs.fsmPstate = .start
  cntr : regs.i2cPrdCntrF.toNat = clock
  bitIdx : regs.bitIdxF = 0
  sdo : regs.sdoF = decide (clock = 0)
  scl : regs.i2cSclOd = decide (clock ≤ xtn.div.toNat / 2)
  nack : regs.nackDetectedF = false

/-- The period of a bit in its clock `clock`; the ninth is the acknowledge slot. -/
structure Sending (xtn : Xtn) (ack : Byte → Bool) (byte : Byte) (slot clock : Nat) (regs : Regs) :
    Prop where
  same : xtnOf regs = xtn
  pstate : regs.fsmPstate = byte.pstate
  cntr : regs.i2cPrdCntrF.toNat = clock
  bitIdx : regs.bitIdxF = BitVec.ofNat 4 slot
  sdo : 0 < clock → regs.sdoF = levels (byte.word xtn) false slot
  scl : regs.i2cSclOd = decide (xtn.div.toNat / 4 < clock ∧ clock ≤ xtn.div.toNat / 4 + 64)
  nack : regs.nackDetectedF =
    (decide (slot = 8) && decide (xtn.div.toNat / 2 < clock) && ack byte)

structure Stopping (xtn : Xtn) (nack : Bool) (clock : Nat) (regs : Regs) : Prop where
  same : xtnOf regs = xtn
  pstate : regs.fsmPstate = .stop
  cntr : regs.i2cPrdCntrF.toNat = clock
  bitIdx : regs.bitIdxF = 0
  sdo : regs.sdoF = decide (xtn.div.toNat / 2 < clock)
  scl : regs.i2cSclOd = decide (0 < clock)
  nack : regs.nackDetectedF = nack

/-- No register is written, and the slave holds its acknowledge while the clock line is
high in the acknowledge slot. -/
structure Quiet (ack : Byte → Bool) (regs : Regs) (inputs : Inputs) : Prop where
  noWrite : inputs.lbWrEnIh = false
  slave : ∀ byte : Byte, regs.fsmPstate = byte.pstate → regs.bitIdxF.getLsbD 3 = true →
    regs.i2cSclOd = true → inputs.sdaReleased = ack byte

/-! ### One clock edge -/

section Step

variable {xtn : Xtn} (legal : xtn.Legal) {ack : Byte → Bool} {regs : Regs} {inputs : Inputs}
  (quiet : Quiet ack regs inputs)

theorem xtn_step (same : xtnOf regs = xtn) (write : xtn.addr.getLsbD 0 = false)
    (noWrite : inputs.lbWrEnIh = false) : xtnOf (step regs inputs) = xtn := by
  have addr : regs.addrF.getLsbD 0 = false := by
    rw [← same] at write
    exact write
  have unsampled : sampleDataC regs = false := by
    unfold sampleDataC
    rw [addr]
    rfl
  have data : nextData regs inputs = regs.dataF := by
    unfold nextData
    rw [noWrite, unsampled]
    rfl
  have kept : ∀ {Word : Type} (place : BitVec 8) (new old : Word),
      (if inputs.lbWrEnIh = true ∧ inputs.lbAddrId = place then new else old) = old := by
    intro Word place new old
    refine if_neg fun both => ?_
    rw [noWrite] at both
    exact Bool.false_ne_true both.1
  rw [← same]
  unfold xtnOf
  rw [← data]
  exact congrArg₂ (fun addr div => Xtn.mk addr (nextData regs inputs) div) (kept _ _ _)
    (kept _ _ _)

theorem cntr_step {clock : Nat} (same : xtnOf regs = xtn)
    (cntr : regs.i2cPrdCntrF.toNat = clock) (inside : clock ≤ xtn.div.toNat)
    (busy : regs.fsmPstate ≠ .idle) :
    (step regs inputs).i2cPrdCntrF.toNat = if clock = xtn.div.toNat then 0 else clock + 1 := by
  have bound := xtn.div.isLt
  have idle : fsmIdleC regs = false := decide_eq_false busy
  change (nextPrdCntr regs).toNat = _
  unfold nextPrdCntr
  rw [idle, wrap_eq same cntr, Bool.false_or]
  by_cases last : clock = xtn.div.toNat
  · rw [if_pos last, decide_eq_true last]
    rfl
  · rw [if_neg last, decide_eq_false last, if_neg Bool.false_ne_true, BitVec.toNat_add, cntr]
    exact Nat.mod_eq_of_lt (by omega : clock + 1 < 256)

theorem nack_step (noWrite : inputs.lbWrEnIh = false) (driven : regs.bitIdxF.getLsbD 3 = false) :
    (step regs inputs).nackDetectedF = regs.nackDetectedF := by
  have unstarted : startI2cXtnC inputs = false := by
    unfold startI2cXtnC
    rw [noWrite, ite_self]
  change nextNackDetected regs inputs = _
  unfold nextNackDetected
  rw [unstarted, driven]
  cases regs.nackDetectedF <;> rfl

include legal quiet

theorem Starting.step {clock : Nat} (starting : Starting xtn clock regs)
    (inside : clock < xtn.div.toNat) : Starting xtn (clock + 1) (I2cMaster.step regs inputs) := by
  have wrap := wrap_eq starting.same starting.cntr
  rw [decide_eq_false (by omega)] at wrap
  have by2 := by2_eq legal starting.same starting.cntr (by omega)
  refine
    { same := xtn_step starting.same legal.write quiet.noWrite
      pstate := ?_
      cntr := ?_
      bitIdx := ?_
      sdo := ?_
      scl := ?_
      nack := ?_ }
  · change nextPstate regs inputs = _
    unfold nextPstate
    rw [starting.pstate, wrap]
    rfl
  · rw [cntr_step starting.same starting.cntr (by omega) (by rw [starting.pstate]; decide),
      if_neg (by omega)]
  · change nextBitIdx regs = _
    unfold nextBitIdx
    rw [starting.pstate]
  · change nextSdo regs = _
    unfold nextSdo
    rw [starting.pstate]
    exact (decide_eq_false (by omega)).symm
  · change nextScl regs = _
    unfold nextScl
    rw [starting.pstate, starting.scl, by2, ← decide_not, ← Bool.decide_and]
    exact decide_eq_decide.mpr (by omega)
  · rw [nack_step quiet.noWrite (by rw [starting.bitIdx]; rfl), starting.nack]

theorem Starting.next (starting : Starting xtn xtn.div.toNat regs) :
    Sending xtn ack .addr 0 0 (I2cMaster.step regs inputs) := by
  have wrap := wrap_eq starting.same starting.cntr
  rw [decide_eq_true rfl] at wrap
  have slow := legal.slow
  refine
    { same := xtn_step starting.same legal.write quiet.noWrite
      pstate := ?_
      cntr := ?_
      bitIdx := ?_
      sdo := fun later => absurd later (Nat.lt_irrefl 0)
      scl := ?_
      nack := ?_ }
  · change nextPstate regs inputs = _
    unfold nextPstate
    rw [starting.pstate, wrap]
    rfl
  · rw [cntr_step starting.same starting.cntr (Nat.le_refl _) (by rw [starting.pstate]; decide),
      if_pos rfl]
  · change nextBitIdx regs = _
    unfold nextBitIdx
    rw [starting.pstate]
    rfl
  · change nextScl regs = _
    unfold nextScl
    rw [starting.pstate, starting.scl, decide_eq_false (by omega), decide_eq_false (by omega)]
    rfl
  · rw [nack_step quiet.noWrite (by rw [starting.bitIdx]; rfl), starting.nack]
    rfl

theorem Stopping.step {nack : Bool} {clock : Nat} (stopping : Stopping xtn nack clock regs)
    (inside : clock < xtn.div.toNat) :
    Stopping xtn nack (clock + 1) (I2cMaster.step regs inputs) := by
  have wrap := wrap_eq stopping.same stopping.cntr
  rw [decide_eq_false (by omega)] at wrap
  have by2 := by2_eq legal stopping.same stopping.cntr (by omega)
  refine
    { same := xtn_step stopping.same legal.write quiet.noWrite
      pstate := ?_
      cntr := ?_
      bitIdx := ?_
      sdo := ?_
      scl := ?_
      nack := ?_ }
  · change nextPstate regs inputs = _
    unfold nextPstate
    rw [stopping.pstate, wrap]
    rfl
  · rw [cntr_step stopping.same stopping.cntr (by omega) (by rw [stopping.pstate]; decide),
      if_neg (by omega)]
  · change nextBitIdx regs = _
    unfold nextBitIdx
    rw [stopping.pstate]
  · change nextSdo regs = _
    unfold nextSdo
    rw [stopping.pstate, stopping.sdo, by2, ← Bool.decide_or]
    exact decide_eq_decide.mpr (by omega)
  · change nextScl regs = _
    unfold nextScl
    rw [stopping.pstate]
    exact (decide_eq_true (by omega)).symm
  · rw [nack_step quiet.noWrite (by rw [stopping.bitIdx]; rfl), stopping.nack]

theorem Stopping.next {nack : Bool} (stopping : Stopping xtn nack xtn.div.toNat regs) :
    (I2cMaster.step regs inputs).fsmPstate = .idle ∧ (I2cMaster.step regs inputs).bitIdxF = 0 ∧
      (I2cMaster.step regs inputs).sdoF = true ∧ (I2cMaster.step regs inputs).i2cSclOd = true ∧
      (I2cMaster.step regs inputs).nackDetectedF = nack := by
  have wrap := wrap_eq stopping.same stopping.cntr
  rw [decide_eq_true rfl] at wrap
  have slow := legal.slow
  refine ⟨?_, ?_, ?_, ?_, ?_⟩
  · change nextPstate regs inputs = _
    unfold nextPstate
    rw [stopping.pstate, wrap]
    rfl
  · change nextBitIdx regs = _
    unfold nextBitIdx
    rw [stopping.pstate]
  · change nextSdo regs = _
    unfold nextSdo
    rw [stopping.pstate, stopping.sdo, decide_eq_true (by omega)]
    rfl
  · change nextScl regs = _
    unfold nextScl
    rw [stopping.pstate]
  · rw [nack_step quiet.noWrite (by rw [stopping.bitIdx]; rfl), stopping.nack]

end Step

/-! ### One clock edge of a bit -/

theorem released_iff : ∀ slot : Fin 9,
    (BitVec.ofNat 4 slot.val).getLsbD 3 = decide (slot.val = 8) ∧
      ((BitVec.ofNat 4 slot.val).extractLsb' 0 3).toNat = slot.val % 8 ∧
      BitVec.ofNat 4 slot.val + 1 = BitVec.ofNat 4 (slot.val + 1) := by
  decide

theorem level_eq (word : BitVec 8) {slot : Nat} (inside : slot ≤ 8) :
    (!(BitVec.ofNat 4 slot).getLsbD 3 && revBit word (BitVec.ofNat 4 slot)) =
      levels word false slot := by
  obtain ⟨released, index, -⟩ := released_iff ⟨slot, by omega⟩
  unfold revBit levels
  rw [released, index]
  by_cases last : slot = 8
  · rw [decide_eq_true last, if_neg (by omega)]
    rfl
  · rw [decide_eq_false last, if_pos (by omega), Nat.mod_eq_of_lt (show slot < 8 by omega)]
    rfl

theorem Byte.ne_idle (byte : Byte) : byte.pstate ≠ .idle := by
  cases byte <;> decide

section Bit

variable {xtn : Xtn} (legal : xtn.Legal) {ack : Byte → Bool} {byte : Byte} {slot clock : Nat}
  {regs : Regs} {inputs : Inputs} (sending : Sending xtn ack byte slot clock regs)
  (index : slot ≤ 8) (quiet : Quiet ack regs inputs)

include sending index in
theorem released_eq : regs.bitIdxF.getLsbD 3 = decide (slot = 8) := by
  rw [sending.bitIdx]
  exact (released_iff ⟨slot, by omega⟩).1

include sending index in
theorem Sending.sdo_step :
    (I2cMaster.step regs inputs).sdoF = levels (byte.word xtn) false slot := by
  have addr : regs.addrF = xtn.addr := congrArg Xtn.addr sending.same
  have data : regs.dataF = xtn.data := congrArg Xtn.data sending.same
  change nextSdo regs = _
  unfold nextSdo
  rw [sending.pstate, sending.bitIdx, addr, data, ← level_eq _ index]
  cases byte <;> rfl

include legal sending in
theorem Sending.scl_step (inside : clock ≤ xtn.div.toNat) :
    (I2cMaster.step regs inputs).i2cSclOd =
      decide (xtn.div.toNat / 4 < clock + 1 ∧ clock + 1 ≤ xtn.div.toNat / 4 + 64) := by
  have slow := legal.slow
  have fast := legal.fast
  have by2 := by2_eq legal sending.same sending.cntr inside
  have by4 := by4_eq legal sending.same sending.cntr inside
  have toggles : (I2cMaster.step regs inputs).i2cSclOd =
      if regs.i2cSclOd then i2cPrdBy2TickC regs || !i2cPrdBy4TickC regs
      else i2cPrdBy4TickC regs := by
    change nextScl regs = _
    unfold nextScl
    rw [sending.pstate]
    cases byte <;> rfl
  rw [toggles, sending.scl, by2, by4]
  by_cases high : xtn.div.toNat / 4 < clock ∧ clock ≤ xtn.div.toNat / 4 + 64
  · rw [decide_eq_true high, if_pos rfl, ← decide_not, ← Bool.decide_or]
    exact decide_eq_decide.mpr (by omega)
  · rw [decide_eq_false high, if_neg Bool.false_ne_true]
    exact decide_eq_decide.mpr (by omega)

include legal sending index quiet in
/-- The flag rises at the half tick of an acknowledge slot that is sampled high. -/
theorem Sending.nack_step (inside : clock ≤ xtn.div.toNat) :
    (I2cMaster.step regs inputs).nackDetectedF =
      (decide (slot = 8) && decide (xtn.div.toNat / 2 < clock + 1) && ack byte) := by
  have slow := legal.slow
  have fast := legal.fast
  have by2 := by2_eq legal sending.same sending.cntr inside
  have released := released_eq sending index
  by_cases last : slot = 8
  · have unstarted : startI2cXtnC inputs = false := by
      unfold startI2cXtnC
      rw [quiet.noWrite, ite_self]
    rw [decide_eq_true last] at released
    change nextNackDetected regs inputs = _
    unfold nextNackDetected i2cSdaIo
    rw [sending.nack, unstarted, released, by2, decide_eq_true last]
    by_cases half : clock = xtn.div.toNat / 2
    · have high : regs.i2cSclOd = true := by
        rw [sending.scl]
        exact decide_eq_true (by omega)
      rw [high, quiet.slave byte sending.pstate released high,
        decide_eq_false (show ¬ xtn.div.toNat / 2 < clock by omega), decide_eq_true half,
        decide_eq_true (show xtn.div.toNat / 2 < clock + 1 by omega)]
      cases ack byte <;> rfl
    · rw [decide_eq_false half, show decide (xtn.div.toNat / 2 < clock + 1) =
        decide (xtn.div.toNat / 2 < clock) from decide_eq_decide.mpr (by omega)]
      cases ack byte <;> cases decide (xtn.div.toNat / 2 < clock) <;> simp
  · rw [I2cMaster.nack_step quiet.noWrite (by rw [released, decide_eq_false last]), sending.nack,
      decide_eq_false last]
    rfl

include legal sending index quiet in
theorem Sending.step (inside : clock < xtn.div.toNat) :
    Sending xtn ack byte slot (clock + 1) (I2cMaster.step regs inputs) := by
  have wrap := wrap_eq sending.same sending.cntr
  rw [decide_eq_false (by omega)] at wrap
  refine
    { same := xtn_step sending.same legal.write quiet.noWrite
      pstate := ?_
      cntr := ?_
      bitIdx := ?_
      sdo := fun _ => sending.sdo_step index
      scl := sending.scl_step legal (by omega)
      nack := sending.nack_step legal index quiet (by omega) }
  · change nextPstate regs inputs = _
    unfold nextPstate
    rw [sending.pstate, wrap, Bool.and_false]
    cases byte <;> rfl
  · rw [cntr_step sending.same sending.cntr (by omega) (by rw [sending.pstate]; exact byte.ne_idle),
      if_neg (by omega)]
  · change nextBitIdx regs = _
    unfold nextBitIdx
    rw [sending.pstate, wrap, Bool.and_false, sending.bitIdx]
    cases byte <;> exact BitVec.add_zero _

include legal sending quiet in
theorem Sending.next_slot (inside : slot < 8) (last : clock = xtn.div.toNat) :
    Sending xtn ack byte (slot + 1) 0 (I2cMaster.step regs inputs) := by
  have wrap := wrap_eq sending.same sending.cntr
  have released := released_eq sending (by omega : slot ≤ 8)
  have slow := legal.slow
  rw [decide_eq_true last] at wrap
  rw [decide_eq_false (by omega)] at released
  refine
    { same := xtn_step sending.same legal.write quiet.noWrite
      pstate := ?_
      cntr := ?_
      bitIdx := ?_
      sdo := fun later => absurd later (Nat.lt_irrefl 0)
      scl := ?_
      nack := ?_ }
  · change nextPstate regs inputs = _
    unfold nextPstate
    rw [sending.pstate, released, Bool.false_and]
    cases byte <;> rfl
  · rw [cntr_step sending.same sending.cntr (by omega) (by rw [sending.pstate]; exact byte.ne_idle),
      if_pos last]
  · change nextBitIdx regs = _
    unfold nextBitIdx
    rw [sending.pstate, released, wrap, sending.bitIdx]
    cases byte <;> exact (released_iff ⟨slot, by omega⟩).2.2
  · rw [sending.scl_step legal (by omega)]
    exact decide_eq_decide.mpr (by omega)
  · rw [sending.nack_step legal (by omega) quiet (by omega), decide_eq_false (by omega),
      decide_eq_false (show ¬ xtn.div.toNat / 2 < 0 by omega), Bool.and_false, Bool.false_and]

end Bit

def Byte.next : Byte → Option Byte
  | .addr => some .data0
  | .data0 => some .data1
  | .data1 => none

/-- What follows the acknowledge slot of a byte. -/
inductive Follows (xtn : Xtn) (ack : Byte → Bool) (byte : Byte) (regs : Regs) : Prop where
  | byte (next : Byte) (acknowledged : ack byte = false) (order : byte.next = some next)
      (sending : Sending xtn ack next 0 0 regs)
  | stop (last : ack byte = true ∨ byte.next = none) (stopping : Stopping xtn (ack byte) 0 regs)

theorem Sending.next_byte {xtn : Xtn} (legal : xtn.Legal) {ack : Byte → Bool} {byte : Byte}
    {regs : Regs} {inputs : Inputs} (sending : Sending xtn ack byte 8 xtn.div.toNat regs)
    (quiet : Quiet ack regs inputs) : Follows xtn ack byte (I2cMaster.step regs inputs) := by
  have wrap := wrap_eq sending.same sending.cntr
  have released := released_eq sending (Nat.le_refl 8)
  have slow := legal.slow
  have fast := legal.fast
  rw [decide_eq_true rfl] at wrap released
  have flag : regs.nackDetectedF = ack byte := by
    rw [sending.nack, decide_eq_true rfl, decide_eq_true (by omega)]
    rfl
  have same := xtn_step sending.same legal.write quiet.noWrite
  have cntr : (I2cMaster.step regs inputs).i2cPrdCntrF.toNat = 0 := by
    rw [cntr_step sending.same sending.cntr (Nat.le_refl _)
      (by rw [sending.pstate]; exact byte.ne_idle), if_pos rfl]
  have bitIdx : (I2cMaster.step regs inputs).bitIdxF = 0 := by
    change nextBitIdx regs = _
    unfold nextBitIdx
    rw [sending.pstate, released, wrap]
    cases byte <;> rfl
  have scl : (I2cMaster.step regs inputs).i2cSclOd = false := by
    rw [sending.scl_step legal (Nat.le_refl _)]
    exact decide_eq_false (by omega)
  have nack : (I2cMaster.step regs inputs).nackDetectedF = ack byte := by
    rw [sending.nack_step legal (Nat.le_refl 8) quiet (Nat.le_refl _), decide_eq_true rfl,
      decide_eq_true (by omega)]
    rfl
  have pstate : (I2cMaster.step regs inputs).fsmPstate =
      if ack byte then .stop else
        match byte.next with
        | some next => next.pstate
        | none => .stop := by
    change nextPstate regs inputs = _
    unfold nextPstate
    rw [sending.pstate, released, wrap, flag]
    cases byte <;> cases ack _ <;> rfl
  have sdo : (I2cMaster.step regs inputs).sdoF = false := sending.sdo_step (Nat.le_refl 8)
  have stopping (last : (I2cMaster.step regs inputs).fsmPstate = .stop) :
      Stopping xtn (ack byte) 0 (I2cMaster.step regs inputs) :=
    { same := same
      pstate := last
      cntr := cntr
      bitIdx := bitIdx
      sdo := sdo.trans (decide_eq_false (by omega)).symm
      scl := scl
      nack := nack }
  cases nacked : ack byte with
  | true =>
      rw [nacked] at pstate stopping
      exact .stop (.inl nacked) (by rw [nacked]; exact stopping pstate)
  | false =>
      rw [nacked] at pstate nack
      cases order : byte.next with
      | none =>
          rw [order] at pstate
          exact .stop (.inr order) (stopping pstate)
      | some next =>
          rw [order] at pstate
          exact .byte next nacked order
            { same := same
              pstate := pstate
              cntr := cntr
              bitIdx := bitIdx
              sdo := fun later => absurd later (Nat.lt_irrefl 0)
              scl := scl.trans (decide_eq_false (by omega)).symm
              nack := nack }

end Synesthesia.I2cMaster
