/-
What the ping-pong buffer holds and shows when it is never reset.

The write pointer counts the samples, so sample `n` is written to half
`n / 128 % 2` at address `n % 128` and stays until sample `n + 256` is written.
-/

import Synesthesia.AudioCortex.Acortex2fgyrusBffr

namespace Synesthesia.BffrFill

open Synesthesia.Rtl
open Synesthesia.Acortex2fgyrusBffr

section Run

variable (contents0 contents1 : BitVec 7 → BitVec 32) (inputs : Nat → Inputs)

def stateAt : Nat → State := run step (reset contents0 contents1) inputs

def samples : Nat → List (BitVec 32) :=
  collect fun t => strobed (inputs t).acortexPcmWrEnIh (inputs t).acortexPcmDataId

/-- The RAM that is filled when the samples `n / 128 * 128 ..` are written. -/
def ramOf (state : State) (n : Nat) : DualPortRam 7 32 :=
  if n / 128 % 2 = 1 then state.pcmRam1 else state.pcmRam0

theorem samples_succ (t : Nat) :
    samples inputs (t + 1) =
      samples inputs t ++ strobed (inputs t).acortexPcmWrEnIh (inputs t).acortexPcmDataId := rfl

theorem samples_length_succ (t : Nat) :
    (samples inputs (t + 1)).length =
      (samples inputs t).length + (inputs t).acortexPcmWrEnIh.toNat := by
  rw [samples_succ, List.length_append]
  cases (inputs t).acortexPcmWrEnIh <;> rfl

theorem samples_length_mono {earlier later : Nat} (before : earlier ≤ later) :
    (samples inputs earlier).length ≤ (samples inputs later).length := by
  obtain ⟨gap, rfl⟩ := Nat.exists_eq_add_of_le before
  exact (collect_isPrefix _ earlier gap).length_le

theorem stateAt_succ (t : Nat) :
    stateAt contents0 contents1 inputs (t + 1) =
      step (stateAt contents0 contents1 inputs t) (inputs t) := rfl

/-! ### Write pointer -/

theorem ramWptr_eq (t : Nat) :
    (stateAt contents0 contents1 inputs t).ramWptrF =
      BitVec.ofNat 8 (samples inputs t).length := by
  induction t with
  | zero => rfl
  | succ t ih =>
      rw [samples_length_succ, BitVec.ofNat_add, ← ih]
      rfl

theorem wrAddress_eq (t : Nat) :
    wrAddress (stateAt contents0 contents1 inputs t) =
      BitVec.ofNat 7 (samples inputs t).length := by
  apply BitVec.eq_of_toNat_eq
  rw [wrAddress, ramWptr_eq, BitVec.extractLsb'_toNat, BitVec.toNat_ofNat, BitVec.toNat_ofNat,
    Nat.shiftRight_zero]
  omega

theorem wrHalf_eq (t : Nat) :
    wrHalf (stateAt contents0 contents1 inputs t) =
      decide ((samples inputs t).length / 128 % 2 = 1) := by
  rw [wrHalf, ramWptr_eq, BitVec.getLsbD_ofNat, Nat.testBit_eq_decide_div_mod_eq]
  rfl

theorem pulseA_iff (t : Nat) :
    pulseA (stateAt contents0 contents1 inputs t) (inputs t) = true ↔
      (samples inputs t).length % 128 = 127 ∧ (inputs t).acortexPcmWrEnIh = true := by
  rw [pulseA, Bool.and_eq_true, beq_iff_eq, wrAddress_eq, ← BitVec.toNat_inj,
    BitVec.toNat_ofNat, BitVec.toNat_allOnes]

/-! ### Stored samples -/

theorem ramOf_memory_succ (t n : Nat) :
    (ramOf (stateAt contents0 contents1 inputs (t + 1)) n).memory =
      store (ramOf (stateAt contents0 contents1 inputs t) n).memory
        ((inputs t).acortexPcmWrEnIh &&
          decide ((samples inputs t).length / 128 % 2 = n / 128 % 2))
        (BitVec.ofNat 7 (samples inputs t).length) (inputs t).acortexPcmDataId := by
  have half := wrHalf_eq contents0 contents1 inputs t
  rw [← wrAddress_eq contents0 contents1 inputs t, stateAt_succ, ramOf, ramOf]
  by_cases upper : n / 128 % 2 = 1
  · rw [if_pos upper, if_pos upper, upper, ← half]
    rfl
  · have lower : n / 128 % 2 = 0 := by
      omega
    have other : decide ((samples inputs t).length / 128 % 2 = 0) =
        !wrHalf (stateAt contents0 contents1 inputs t) := by
      rw [half, ← decide_not, decide_eq_decide]
      omega
    rw [if_neg upper, if_neg upper, lower, other]
    rfl

theorem ramOf_memory (t n : Nat) (written : n < (samples inputs t).length)
    (recent : (samples inputs t).length ≤ n + 256) :
    (samples inputs t)[n]? =
      some ((ramOf (stateAt contents0 contents1 inputs t) n).memory (BitVec.ofNat 7 n)) := by
  induction t with
  | zero => exact absurd written (Nat.not_lt_zero n)
  | succ t ih =>
      rw [ramOf_memory_succ]
      cases enable : (inputs t).acortexPcmWrEnIh with
      | false =>
          have same : samples inputs (t + 1) = samples inputs t := by
            rw [samples_succ, enable, strobed_false, List.append_nil]
          rw [Bool.false_and, store_false]
          rw [same] at written recent ⊢
          exact ih written recent
      | true =>
          have longer := samples_length_succ inputs t
          rw [enable, Bool.toNat_true] at longer
          rw [samples_succ, enable, strobed_true, Bool.true_and]
          by_cases newest : n = (samples inputs t).length
          · rw [newest, decide_eq_true rfl, store_same, List.getElem?_concat_length]
          · rw [List.getElem?_append_left (by omega)]
            by_cases sameHalf : (samples inputs t).length / 128 % 2 = n / 128 % 2
            · have apart : BitVec.ofNat 7 n ≠ BitVec.ofNat 7 (samples inputs t).length := by
                rw [ne_eq, ← BitVec.toNat_inj, BitVec.toNat_ofNat, BitVec.toNat_ofNat]
                omega
              rw [store_other _ _ _ apart]
              exact ih (by omega) (by omega)
            · rw [decide_eq_false sameHalf, store_false]
              exact ih (by omega) (by omega)

/-! ### Reading the other half -/

/-- The half that is not written shows the word two clocks after its address. -/
theorem data_two (t : Nat)
    (same : wrHalf (stateAt contents0 contents1 inputs (t + 2)) =
      wrHalf (stateAt contents0 contents1 inputs t)) :
    fgyrusPcmDataOd (stateAt contents0 contents1 inputs (t + 2)) =
      if wrHalf (stateAt contents0 contents1 inputs t) then
        (stateAt contents0 contents1 inputs t).pcmRam0.memory (inputs t).fgyrusPcmRdAddrId
      else (stateAt contents0 contents1 inputs t).pcmRam1.memory
        (inputs t).fgyrusPcmRdAddrId := by
  rw [fgyrusPcmDataOd, same, stateAt_succ, stateAt_succ]
  cases half : wrHalf (stateAt contents0 contents1 inputs t) with
  | true =>
      simp only [step, DualPortRam.step, ramPorts, half, Bool.not_true, Bool.and_false,
        Bool.false_eq_true, false_and, reduceIte]
  | false =>
      simp only [step, DualPortRam.step, ramPorts, half, Bool.and_false, Bool.false_eq_true,
        false_and, reduceIte]

/-- While the samples of half `m + 1` come, the reader sees those of half `m`. -/
theorem data_of_half (t m : Nat) (from' : 128 * (m + 1) ≤ (samples inputs t).length)
    (upto : (samples inputs (t + 2)).length < 128 * (m + 2)) :
    (samples inputs t)[128 * m + (inputs t).fgyrusPcmRdAddrId.toNat]? =
      some (fgyrusPcmDataOd (stateAt contents0 contents1 inputs (t + 2))) := by
  have grows := samples_length_mono inputs (Nat.le_add_right t 2)
  have inside := (inputs t).fgyrusPcmRdAddrId.isLt
  have now : (samples inputs t).length / 128 = m + 1 := by
    omega
  have later : (samples inputs (t + 2)).length / 128 = m + 1 := by
    omega
  have address : BitVec.ofNat 7 (128 * m + (inputs t).fgyrusPcmRdAddrId.toNat) =
      (inputs t).fgyrusPcmRdAddrId := by
    rw [← BitVec.toNat_inj, BitVec.toNat_ofNat]
    omega
  have block : (128 * m + (inputs t).fgyrusPcmRdAddrId.toNat) / 128 = m := by
    omega
  rw [ramOf_memory contents0 contents1 inputs t _ (by omega) (by omega), address, ramOf, block,
    data_two _ _ _ _ (by rw [wrHalf_eq, wrHalf_eq, now, later]), wrHalf_eq, now]
  by_cases upper : m % 2 = 1
  · rw [if_pos upper, decide_eq_false (by omega)]
    rfl
  · rw [if_neg upper, decide_eq_true (by omega)]
    rfl

/-! ### The pulse towards the FFT engine -/

theorem syncRuns :
    PulseSyncTggl.SyncRuns fun t => (stateAt contents0 contents1 inputs t).psync :=
  fun t => ⟨pulseA (stateAt contents0 contents1 inputs t) (inputs t), rfl, rfl⟩

theorem ready_late (t : Nat) :
    fgyrusPcmRdyOh (stateAt contents0 contents1 inputs (t + 5)) =
      pulseA (stateAt contents0 contents1 inputs t) (inputs t) := by
  have toggled : (stateAt contents0 contents1 inputs (t + 1)).psync.tflopF =
      if pulseA (stateAt contents0 contents1 inputs t) (inputs t) then
        !(stateAt contents0 contents1 inputs t).psync.tflopF
      else (stateAt contents0 contents1 inputs t).psync.tflopF := rfl
  have pulse := (syncRuns contents0 contents1 inputs).pulse t
  rw [toggled] at pulse
  rw [fgyrusPcmRdyOh, pulse]
  cases pulseA (stateAt contents0 contents1 inputs t) (inputs t) <;>
    cases (stateAt contents0 contents1 inputs t).psync.tflopF <;>
    rfl

/-- Every pulse follows five clocks after the last sample of a half. -/
theorem ready_after {t : Nat}
    (pulse : fgyrusPcmRdyOh (stateAt contents0 contents1 inputs t) = true) :
    ∃ k, t = k + 5 ∧ (samples inputs k).length % 128 = 127 ∧
      (inputs k).acortexPcmWrEnIh = true := by
  rcases Nat.lt_or_ge t 5 with early | late
  · have none := (syncRuns contents0 contents1 inputs).pulse_early rfl early
    rw [fgyrusPcmRdyOh, none] at pulse
    cases pulse
  · obtain ⟨k, rfl⟩ := Nat.exists_eq_add_of_le' late
    rw [ready_late, pulseA_iff] at pulse
    exact ⟨k, rfl, pulse⟩

end Run

end Synesthesia.BffrFill
