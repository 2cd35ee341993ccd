/-
`fft_cache_mm_sl`: the Avalon slave that reads the FFT result memories.

Every read goes to both memories, which answer after two clocks.  Two delay
vectors of two bits go along with it: one says that a read is under way, the
other which half of the address space it came from.  The slave selects the left
memory if any bit of the second vector is set, so the half of the next address
on the bus counts as well.  The memories are not written during the run.
-/

import Synesthesia.Rtl.Clocked
import Synesthesia.Rtl.DualPortRam

namespace Synesthesia.FftCacheMmSl

open Synesthesia.Rtl

structure Inputs where
  avReadIh : Bool
  avAddrId : BitVec 10

structure State where
  avReadDataOd : BitVec 32
  avReadDataValidOh : Bool
  pstVecF : BitVec 2
  fftResLNRSelF : BitVec 2
  fftResRamLchnl : DualPortRam 7 32
  fftResRamRchnl : DualPortRam 7 32

def reset (lchnl rchnl : BitVec 7 → BitVec 32) : State :=
  { avReadDataOd := 0
    avReadDataValidOh := false
    pstVecF := 0
    fftResLNRSelF := 0
    fftResRamLchnl := DualPortRam.init lchnl
    fftResRamRchnl := DualPortRam.init rchnl }

def fftResRamRdAddrOd (inputs : Inputs) : BitVec 7 := inputs.avAddrId.extractLsb' 2 7

def delay (vec : BitVec 2) (bit : Bool) : BitVec 2 :=
  BitVec.ofBool (vec.getLsbD 0) ++ BitVec.ofBool bit

def readPorts (rdaddress : BitVec 7) : DualPortRam.Ports 7 32 :=
  { data := 0
    rdaddress := rdaddress
    wraddress := 0
    wren := false
    mixed := 0 }

/-- Both vectors are tested as a whole. -/
def nextReadData (state : State) : BitVec 32 :=
  if state.pstVecF ≠ 0 then
    if state.fftResLNRSelF ≠ 0 then state.fftResRamLchnl.q else state.fftResRamRchnl.q
  else state.avReadDataOd

def step (state : State) (inputs : Inputs) : State :=
  { avReadDataOd := nextReadData state
    avReadDataValidOh := state.pstVecF.getLsbD 1
    pstVecF := delay state.pstVecF inputs.avReadIh
    fftResLNRSelF := delay state.fftResLNRSelF (inputs.avAddrId.getLsbD 9)
    fftResRamLchnl := state.fftResRamLchnl.step (readPorts (fftResRamRdAddrOd inputs))
    fftResRamRchnl := state.fftResRamRchnl.step (readPorts (fftResRamRdAddrOd inputs)) }

/-! ### Delay vectors -/

theorem delay_getLsbD_zero (vec : BitVec 2) (bit : Bool) : (delay vec bit).getLsbD 0 = bit := by
  unfold delay
  rw [BitVec.getLsbD_append, if_pos Nat.zero_lt_one, BitVec.getLsbD_ofBool]
  rfl

theorem delay_getLsbD_one (vec : BitVec 2) (bit : Bool) :
    (delay vec bit).getLsbD 1 = vec.getLsbD 0 := by
  unfold delay
  rw [BitVec.getLsbD_append, if_neg (Nat.lt_irrefl 1), BitVec.getLsbD_ofBool]
  rfl

theorem delay_ne_zero (vec : BitVec 2) (bit : Bool) :
    delay vec bit ≠ 0 ↔ vec.getLsbD 0 = true ∨ bit = true := by
  unfold delay
  cases vec.getLsbD 0 <;> cases bit <;> decide

section Run

variable (lchnl rchnl : BitVec 7 → BitVec 32) (inputs : Nat → Inputs)

def stateAt : Nat → State := run step (reset lchnl rchnl) inputs

theorem stateAt_succ (t : Nat) :
    stateAt lchnl rchnl inputs (t + 1) = step (stateAt lchnl rchnl inputs t) (inputs t) := rfl

/-- The word that the read in cycle `t` addresses. -/
def addressedWord (t : Nat) : BitVec 32 :=
  if (inputs t).avAddrId.getLsbD 9 then lchnl (fftResRamRdAddrOd (inputs t))
  else rchnl (fftResRamRdAddrOd (inputs t))

/-- The words addressed by the reads before cycle `t`, in order. -/
def addressed : Nat → List (BitVec 32) :=
  collect fun t => strobed (inputs t).avReadIh (addressedWord lchnl rchnl inputs t)

/-- The words on the pulses of `av_read_data_valid_oh` before cycle `t`, in order. -/
def delivered : Nat → List (BitVec 32) :=
  collect fun t => strobed (stateAt lchnl rchnl inputs t).avReadDataValidOh
    (stateAt lchnl rchnl inputs t).avReadDataOd

/-- The read in cycle `t` is not taken for one of the left channel: it is one, or
the next address is in the right half as well, or both channels hold one word. -/
def Unmixed (t : Nat) : Prop :=
  (inputs t).avAddrId.getLsbD 9 = true ∨ (inputs (t + 1)).avAddrId.getLsbD 9 = false ∨
    lchnl (fftResRamRdAddrOd (inputs t)) = rchnl (fftResRamRdAddrOd (inputs t))

/-! ### Latency -/

theorem memory_kept (t : Nat) :
    (stateAt lchnl rchnl inputs t).fftResRamLchnl.memory = lchnl ∧
      (stateAt lchnl rchnl inputs t).fftResRamRchnl.memory = rchnl := by
  induction t with
  | zero => exact ⟨rfl, rfl⟩
  | succ t ih =>
      rw [stateAt_succ]
      unfold step DualPortRam.step readPorts
      simp only [store_false]
      exact ih

theorem q_eq (t : Nat) :
    (stateAt lchnl rchnl inputs (t + 2)).fftResRamLchnl.q = lchnl (fftResRamRdAddrOd (inputs t)) ∧
      (stateAt lchnl rchnl inputs (t + 2)).fftResRamRchnl.q =
        rchnl (fftResRamRdAddrOd (inputs t)) := by
  obtain ⟨left, right⟩ := memory_kept lchnl rchnl inputs t
  constructor
  · rw [stateAt_succ, stateAt_succ]
    simp only [step, DualPortRam.step, readPorts, Bool.false_eq_true, false_and, reduceIte, left]
  · rw [stateAt_succ, stateAt_succ]
    simp only [step, DualPortRam.step, readPorts, Bool.false_eq_true, false_and, reduceIte, right]

theorem valid_early {t : Nat} (early : t < 3) :
    (stateAt lchnl rchnl inputs t).avReadDataValidOh = false := by
  have idle : ∀ k, (stateAt lchnl rchnl inputs 0).pstVecF.getLsbD k = false :=
    fun _ => BitVec.getLsbD_zero
  have place : t = 0 ∨ t = 1 ∨ t = 2 := by
    omega
  rcases place with rfl | rfl | rfl
  · rfl
  · rw [stateAt_succ]
    simp only [step, idle]
  · rw [stateAt_succ, stateAt_succ]
    simp only [step, delay_getLsbD_one, idle]

theorem valid_eq (t : Nat) :
    (stateAt lchnl rchnl inputs (t + 3)).avReadDataValidOh = (inputs t).avReadIh := by
  rw [stateAt_succ, stateAt_succ, stateAt_succ]
  simp only [step, delay_getLsbD_one, delay_getLsbD_zero]

/-- The word on the pulse of a read also depends on the address after it. -/
theorem data_eq {t : Nat} (read : (inputs t).avReadIh = true) :
    (stateAt lchnl rchnl inputs (t + 3)).avReadDataOd =
      if (inputs t).avAddrId.getLsbD 9 = true ∨ (inputs (t + 1)).avAddrId.getLsbD 9 = true then
        lchnl (fftResRamRdAddrOd (inputs t))
      else rchnl (fftResRamRdAddrOd (inputs t)) := by
  obtain ⟨left, right⟩ := q_eq lchnl rchnl inputs t
  have pending : (stateAt lchnl rchnl inputs (t + 2)).pstVecF ≠ 0 := by
    rw [stateAt_succ, stateAt_succ]
    simp only [step, delay_ne_zero, delay_getLsbD_zero, read, true_or]
  have side : (stateAt lchnl rchnl inputs (t + 2)).fftResLNRSelF ≠ 0 ↔
      (inputs t).avAddrId.getLsbD 9 = true ∨ (inputs (t + 1)).avAddrId.getLsbD 9 = true := by
    rw [stateAt_succ, stateAt_succ]
    simp only [step, delay_ne_zero, delay_getLsbD_zero]
  rw [stateAt_succ]
  simp only [step, nextReadData, if_pos pending, left, right, side]

theorem data_eq_addressed {t : Nat} (read : (inputs t).avReadIh = true) :
    (stateAt lchnl rchnl inputs (t + 3)).avReadDataOd = addressedWord lchnl rchnl inputs t ↔
      Unmixed lchnl rchnl inputs t := by
  rw [data_eq lchnl rchnl inputs read, addressedWord, Unmixed]
  cases (inputs t).avAddrId.getLsbD 9 with
  | true => simp
  | false =>
      cases (inputs (t + 1)).avAddrId.getLsbD 9 with
      | true => simp
      | false => simp

theorem delivered_eq (t : Nat) :
    delivered lchnl rchnl inputs (t + 3) =
      collect (fun u => strobed (inputs u).avReadIh
        (stateAt lchnl rchnl inputs (u + 3)).avReadDataOd) t := by
  have silent : delivered lchnl rchnl inputs 3 = [] := by
    refine collect_eq_nil fun k before => ?_
    rw [valid_early lchnl rchnl inputs before, strobed_false]
  have shifted := collect_add (fun u => strobed (stateAt lchnl rchnl inputs u).avReadDataValidOh
    (stateAt lchnl rchnl inputs u).avReadDataOd) 3 t
  rw [delivered] at silent ⊢
  rw [Nat.add_comm t 3, shifted, silent, List.nil_append]
  congr 1
  funext u
  rw [Nat.add_comm 3 u, valid_eq]

end Run

/-- For every sequence of reads: each read gets one pulse, in order, and all pulses
so far carry the addressed words if and only if no read of the right half was
followed by an address of the left half over differing words. -/
theorem delivered_iff (lchnl rchnl : BitVec 7 → BitVec 32) (inputs : Nat → Inputs) (t : Nat) :
    (delivered lchnl rchnl inputs (t + 3)).length = (addressed lchnl rchnl inputs t).length ∧
      (delivered lchnl rchnl inputs (t + 3) = addressed lchnl rchnl inputs t ↔
        ∀ u < t, (inputs u).avReadIh = true → Unmixed lchnl rchnl inputs u) := by
  rw [delivered_eq, addressed]
  refine ⟨length_collect_strobed _ _ _ t, ?_⟩
  rw [collect_strobed_eq_iff]
  constructor
  · intro same u before read
    exact (data_eq_addressed lchnl rchnl inputs read).mp (same u before read)
  · intro unmixed u before read
    exact (data_eq_addressed lchnl rchnl inputs read).mpr (unmixed u before read)

/-- A read of the right channel, and one of the left channel in the next clock. -/
def alternating (t : Nat) : Inputs :=
  { avReadIh := decide (t < 2)
    avAddrId := if t = 0 then 0x014 else 0x214 }

/-- Both reads get the word of the left channel. -/
theorem right_read_gets_left :
    addressed (fun _ => 1) (fun _ => 2) alternating 2 = [2, 1] ∧
      delivered (fun _ => 1) (fun _ => 2) alternating (2 + 3) = [1, 1] ∧
      ¬ ∀ (lchnl rchnl : BitVec 7 → BitVec 32) (inputs : Nat → Inputs) (t : Nat),
        delivered lchnl rchnl inputs (t + 3) = addressed lchnl rchnl inputs t := by
  refine ⟨by decide, by decide, fun correct => ?_⟩
  have same := correct (fun _ => 1) (fun _ => 2) alternating 2
  exact absurd same (by decide)

end Synesthesia.FftCacheMmSl
