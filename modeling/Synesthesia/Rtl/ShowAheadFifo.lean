/-
Single-clock show-ahead FIFO without overflow and underflow checking.

The oldest word stands at the output before it is asked for, and an access shows
in the flags one clock later.  A write to a full FIFO or a read of an empty one
moves the pointers all the same; what the FIFO holds is known only as long as
neither happens.
-/

import Synesthesia.Rtl.Clocked
import Synesthesia.Rtl.Memory

namespace Synesthesia.Rtl

structure ShowAheadFifo (addrBits dataBits : Nat) where
  memory : BitVec addrBits → BitVec dataBits
  rdPtr : BitVec addrBits
  wrPtr : BitVec addrBits
  used : BitVec (addrBits + 1)

namespace ShowAheadFifo

variable {addrBits dataBits : Nat}

def init (contents : BitVec addrBits → BitVec dataBits) : ShowAheadFifo addrBits dataBits :=
  { memory := contents
    rdPtr := 0
    wrPtr := 0
    used := 0 }

def empty (fifo : ShowAheadFifo addrBits dataBits) : Bool := fifo.used == 0

def full (fifo : ShowAheadFifo addrBits dataBits) : Bool :=
  fifo.used == BitVec.ofNat (addrBits + 1) (2 ^ addrBits)

def usedw (fifo : ShowAheadFifo addrBits dataBits) : BitVec addrBits :=
  fifo.used.extractLsb' 0 addrBits

def q (fifo : ShowAheadFifo addrBits dataBits) : BitVec dataBits := fifo.memory fifo.rdPtr

def step (fifo : ShowAheadFifo addrBits dataBits) (wrreq : Bool) (data : BitVec dataBits)
    (rdreq : Bool) : ShowAheadFifo addrBits dataBits :=
  { memory := store fifo.memory wrreq fifo.wrPtr data
    rdPtr := fifo.rdPtr + BitVec.ofNat addrBits rdreq.toNat
    wrPtr := fifo.wrPtr + BitVec.ofNat addrBits wrreq.toNat
    used :=
      fifo.used + BitVec.ofNat (addrBits + 1) wrreq.toNat -
        BitVec.ofNat (addrBits + 1) rdreq.toNat }

/-- After `reads` reads the FIFO holds `words`, the oldest first. -/
structure Holds (fifo : ShowAheadFifo addrBits dataBits) (reads : Nat)
    (words : List (BitVec dataBits)) : Prop where
  contents : words = window fifo.memory reads words.length
  rdPtr : fifo.rdPtr = BitVec.ofNat addrBits reads
  wrPtr : fifo.wrPtr = BitVec.ofNat addrBits (reads + words.length)
  used : fifo.used = BitVec.ofNat (addrBits + 1) words.length
  fits : words.length ≤ 2 ^ addrBits

theorem init_holds (contents : BitVec addrBits → BitVec dataBits) :
    Holds (init contents) 0 [] where
  contents := rfl
  rdPtr := rfl
  wrPtr := rfl
  used := rfl
  fits := Nat.zero_le _

section Holding

variable {fifo : ShowAheadFifo addrBits dataBits} {reads : Nat} {words : List (BitVec dataBits)}

theorem Holds.used_toNat (holds : Holds fifo reads words) : fifo.used.toNat = words.length := by
  have more : 2 ^ addrBits < 2 ^ (addrBits + 1) :=
    Nat.pow_lt_pow_right (by decide) (Nat.lt_succ_self _)
  rw [holds.used, BitVec.toNat_ofNat]
  exact Nat.mod_eq_of_lt (Nat.lt_of_le_of_lt holds.fits more)

theorem Holds.empty_eq (holds : Holds fifo reads words) : fifo.empty = words.isEmpty := by
  rw [Bool.eq_iff_iff, empty, beq_iff_eq, List.isEmpty_iff, ← List.length_eq_zero_iff,
    ← BitVec.toNat_inj, holds.used_toNat]
  rfl

theorem Holds.full_eq (holds : Holds fifo reads words) :
    fifo.full = decide (words.length = 2 ^ addrBits) := by
  have inside : 2 ^ addrBits % 2 ^ (addrBits + 1) = 2 ^ addrBits :=
    Nat.mod_eq_of_lt (Nat.pow_lt_pow_right (by decide) (Nat.lt_succ_self _))
  rw [Bool.eq_iff_iff, full, beq_iff_eq, decide_eq_true_eq, ← BitVec.toNat_inj,
    holds.used_toNat, BitVec.toNat_ofNat, inside]

theorem Holds.usedw_toNat (holds : Holds fifo reads words)
    (room : words.length < 2 ^ addrBits) : fifo.usedw.toNat = words.length := by
  rw [usedw, BitVec.extractLsb'_toNat, Nat.shiftRight_zero, holds.used_toNat,
    Nat.mod_eq_of_lt room]

theorem Holds.q_eq (holds : Holds fifo reads words) (word : BitVec dataBits)
    (rest : List (BitVec dataBits)) (shape : words = word :: rest) : fifo.q = word := by
  have contents := holds.contents
  rw [shape, List.length_cons, window_pop] at contents
  rw [q, holds.rdPtr]
  exact (List.cons.inj contents).1.symm

theorem Holds.write (holds : Holds fifo reads words) (room : words.length < 2 ^ addrBits)
    (data : BitVec dataBits) : Holds (step fifo true data false) reads (words ++ [data]) := by
  constructor
  case contents =>
    rw [List.length_append, List.length_singleton, step, holds.wrPtr, window_push _ _ _ _ room,
      ← holds.contents]
  case rdPtr =>
    rw [step, holds.rdPtr]
    exact BitVec.add_zero _
  case wrPtr =>
    rw [step, holds.wrPtr, List.length_append, List.length_singleton, ← Nat.add_assoc]
    exact (BitVec.ofNat_add _ 1).symm
  case used =>
    rw [List.length_append, List.length_singleton, BitVec.ofNat_add, ← holds.used]
    exact BitVec.sub_zero _
  case fits =>
    rw [List.length_append, List.length_singleton]
    exact room

theorem Holds.read {word : BitVec dataBits} (holds : Holds fifo reads (word :: words))
    (data : BitVec dataBits) : Holds (step fifo false data true) (reads + 1) words := by
  have contents := holds.contents
  rw [List.length_cons, window_pop] at contents
  have fits := holds.fits
  rw [List.length_cons] at fits
  constructor
  case contents =>
    rw [step, store_false]
    exact (List.cons.inj contents).2
  case rdPtr =>
    rw [step, holds.rdPtr]
    exact (BitVec.ofNat_add _ 1).symm
  case wrPtr =>
    rw [step, holds.wrPtr, List.length_cons, Nat.add_right_comm]
    exact BitVec.add_zero _
  case used =>
    rw [step, holds.used, List.length_cons, BitVec.ofNat_add]
    simp only [Bool.toNat_false, Bool.toNat_true, BitVec.add_zero, BitVec.add_sub_cancel]
  case fits => exact Nat.le_of_succ_le fits

@[simp] theorem step_quiet (fifo : ShowAheadFifo addrBits dataBits) (data : BitVec dataBits) :
    step fifo false data false = fifo := by
  simp only [step, store_false, Bool.toNat_false, BitVec.add_zero, BitVec.sub_zero]

/-- A read and a write in one clock are a read and then a write. -/
theorem step_eq (fifo : ShowAheadFifo addrBits dataBits) (wrreq : Bool)
    (data : BitVec dataBits) (rdreq : Bool) :
    step fifo wrreq data rdreq = step (step fifo false data rdreq) wrreq data false := by
  have used : fifo.used + BitVec.ofNat (addrBits + 1) wrreq.toNat -
        BitVec.ofNat (addrBits + 1) rdreq.toNat =
      fifo.used - BitVec.ofNat (addrBits + 1) rdreq.toNat +
        BitVec.ofNat (addrBits + 1) wrreq.toNat := by
    rw [BitVec.sub_eq_add_neg, BitVec.sub_eq_add_neg, BitVec.add_assoc, BitVec.add_assoc,
      BitVec.add_comm (BitVec.ofNat _ wrreq.toNat)]
  simp only [step, store_false, Bool.toNat_false, BitVec.add_zero, used, BitVec.sub_zero]

theorem Holds.step (holds : Holds fifo reads words) (wrreq : Bool) (data : BitVec dataBits)
    (rdreq : Bool) (room : wrreq = true → words.length < 2 ^ addrBits)
    (stock : rdreq = true → words ≠ []) :
    Holds (step fifo wrreq data rdreq) (reads + rdreq.toNat)
      (words.drop rdreq.toNat ++ strobed wrreq data) := by
  have taken : Holds (ShowAheadFifo.step fifo false data rdreq) (reads + rdreq.toNat)
      (words.drop rdreq.toNat) := by
    cases rdreq with
    | true =>
        obtain ⟨word, rest, shape⟩ := List.exists_cons_of_ne_nil (stock rfl)
        rw [shape] at holds ⊢
        exact holds.read data
    | false =>
        rw [step_quiet]
        exact holds
  rw [step_eq]
  cases wrreq with
  | true =>
      refine taken.write ?_ data
      have fewer := List.length_drop (i := rdreq.toNat) (l := words)
      have before := room rfl
      omega
  | false =>
      rw [step_quiet, strobed_false, List.append_nil]
      exact taken

end Holding

end ShowAheadFifo

end Synesthesia.Rtl
