/-
The flags of `sram_ff_cntrlr` over whole runs.

Occupancy counts the writes and reads that took effect.  Full and empty are exact
in every cycle.  Almost-empty compares the two topmost Gray bits of the pointers,
which says whether both are in the same half of the memory.
-/

import Synesthesia.AudioCortex.SramFfCntrlr
import Mathlib.Algebra.Group.Nat.Defs

namespace Synesthesia.SramFfCntrlr

open Synesthesia.Rtl

variable {width : Nat}

section Run

variable (width) (inputs : Nat → Inputs)

def stateAt : Nat → Regs width := run step reset inputs

def effectiveWrites : Nat → Nat
  | 0 => 0
  | t + 1 =>
      effectiveWrites t +
        ((inputs t).sramFfWrEnIh && !(stateAt width inputs t).sramFullOh).toNat

def effectiveReads : Nat → Nat
  | 0 => 0
  | t + 1 =>
      effectiveReads t +
        ((inputs t).sramFfRdEnIh && !(stateAt width inputs t).sramEmptyOh).toNat

def occupancy (t : Nat) : Int :=
  (effectiveWrites width inputs t : Int) - effectiveReads width inputs t

theorem run_counts (positive : 0 < width) (t : Nat) :
    Counts (stateAt width inputs t) (effectiveWrites width inputs t)
      (effectiveReads width inputs t) := by
  induction t with
  | zero => exact reset_counts
  | succ t ih => exact step_counts positive ih (inputs t)

/-- Full, empty and both addresses follow from the counts in every cycle of every
run, whatever is asked of a full or an empty memory. -/
theorem flags_exact (wide : 2 ≤ width) (t : Nat) :
    0 ≤ occupancy width inputs t ∧ occupancy width inputs t ≤ 2 ^ width ∧
      ((stateAt width inputs t).sramFullOh = true ↔ occupancy width inputs t = 2 ^ width) ∧
      ((stateAt width inputs t).sramEmptyOh = true ↔ occupancy width inputs t = 0) ∧
      (sramRdAddrOd (stateAt width inputs t)).toNat =
        effectiveReads width inputs t % 2 ^ width ∧
      (sramWrAddrOd (stateAt width inputs t)).toNat =
        effectiveWrites width inputs t % 2 ^ width := by
  have counts := run_counts width inputs (by omega) t
  have lower := counts.lower
  have upper := counts.upper
  have size : ((2 ^ width : Nat) : Int) = 2 ^ width := Int.natCast_pow 2 width
  unfold occupancy
  refine ⟨by omega, by omega, ?_, ?_, ?_, ?_⟩
  · rw [counts.full, decide_eq_true_iff]
    omega
  · rw [counts.empty, decide_eq_true_iff]
    omega
  · rw [counts.rdAddr, BitVec.toNat_ofNat]
  · rw [counts.wrAddr, BitVec.toNat_ofNat]

end Run

/-! ### Almost empty -/

theorem topGray_eq_iff (positive : 0 < width) (left right : BitVec (width + 1)) :
    (gray left).extractLsb' (width - 1) 2 = (gray right).extractLsb' (width - 1) 2 ↔
      left.toNat / 2 ^ (width - 1) = right.toNat / 2 ^ (width - 1) := by
  have bits : (gray left).extractLsb' (width - 1) 2 = (gray right).extractLsb' (width - 1) 2 ↔
      left.extractLsb' (width - 1) 2 = right.extractLsb' (width - 1) 2 := by
    have top : ∀ value : BitVec (width + 1), (gray value).getLsbD width = value.getLsbD width := by
      intro value
      rw [getLsbD_gray, BitVec.getLsbD_of_ge value (width + 1) (by omega), Bool.xor_false]
    have below : ∀ value : BitVec (width + 1), (gray value).getLsbD (width - 1) =
        (value.getLsbD (width - 1) ^^ value.getLsbD width) := by
      intro value
      rw [getLsbD_gray, Nat.sub_add_cancel positive]
    have pair : ∀ first second : BitVec (width + 1),
        first.extractLsb' (width - 1) 2 = second.extractLsb' (width - 1) 2 ↔
          first.getLsbD (width - 1) = second.getLsbD (width - 1) ∧
            first.getLsbD width = second.getLsbD width := by
      intro first second
      have index : width - 1 + 1 = width := Nat.sub_add_cancel positive
      constructor
      · intro same
        have low := congrArg (fun value => value.getLsbD 0) same
        have high := congrArg (fun value => value.getLsbD 1) same
        simp only [BitVec.getLsbD_extractLsb', Nat.add_zero, index] at low high
        exact ⟨by simpa using low, by simpa using high⟩
      · rintro ⟨low, high⟩
        apply BitVec.eq_of_getLsbD_eq
        intro i inside
        rw [BitVec.getLsbD_extractLsb', BitVec.getLsbD_extractLsb']
        have cases : i = 0 ∨ i = 1 := by omega
        rcases cases with rfl | rfl
        · simpa using low
        · simpa [index] using high
    rw [pair, pair, top, top, below, below]
    constructor
    · rintro ⟨low, high⟩
      rw [high] at low
      exact ⟨by simpa using low, high⟩
    · rintro ⟨low, high⟩
      exact ⟨by rw [low, high], high⟩
  have double : 2 ^ (width + 1) = 2 ^ (width - 1) * 4 := by
    rw [show width + 1 = width - 1 + 2 by omega, Nat.pow_add]
  have quarter : ∀ value : BitVec (width + 1), value.toNat / 2 ^ (width - 1) < 4 := by
    intro value
    have bound := value.isLt
    rw [double] at bound
    exact Nat.div_lt_of_lt_mul bound
  rw [bits, ← BitVec.toNat_inj, BitVec.extractLsb'_toNat, BitVec.extractLsb'_toNat,
    Nat.shiftRight_eq_div_pow, Nat.shiftRight_eq_div_pow]
  have first : left.toNat / 2 ^ (width - 1) < 2 ^ 2 := quarter left
  have second : right.toNat / 2 ^ (width - 1) < 2 ^ 2 := quarter right
  rw [Nat.mod_eq_of_lt first, Nat.mod_eq_of_lt second]

/-- Two counts at most two quarters apart are in one quarter exactly if no boundary
lies between them. -/
theorem sameQuarter_iff {half reads writes : Nat} (positive : 0 < half)
    (lower : reads ≤ writes) (upper : writes ≤ reads + 2 * half) :
    writes % (half * 4) / half = reads % (half * 4) / half ↔
      reads % half + (writes - reads) < half := by
  have place := Nat.mod_add_div reads half
  have inside := Nat.mod_lt reads positive
  have split : writes / half = reads / half + (reads % half + (writes - reads)) / half := by
    have sum : writes = reads % half + (writes - reads) + half * (reads / half) := by omega
    rw [sum, Nat.add_mul_div_left _ _ positive, Nat.add_comm, ← sum]
  have few : (reads % half + (writes - reads)) / half < 3 := by
    apply Nat.div_lt_of_lt_mul
    omega
  have none : (reads % half + (writes - reads)) / half = 0 ↔
      reads % half + (writes - reads) < half := by
    rw [Nat.div_eq_zero_iff]
    omega
  rw [Nat.mod_mul_right_div_self, Nat.mod_mul_right_div_self, split, ← none]
  generalize (reads % half + (writes - reads)) / half = crossed at few ⊢
  generalize reads / half = whole
  omega

section Run

variable (width) (inputs : Nat → Inputs)

def WithinHalf (t : Nat) : Prop :=
  ((effectiveReads width inputs t % 2 ^ (width - 1) : Nat) : Int) + occupancy width inputs t <
    2 ^ (width - 1)

theorem aempty_iff (wide : 2 ≤ width) (t : Nat) :
    (stateAt width inputs t).sramAemptyOh = true ↔ WithinHalf width inputs t := by
  have counts := run_counts width inputs (by omega) t
  have lower := counts.lower
  have upper := counts.upper
  have half : 0 < 2 ^ (width - 1) := Nat.two_pow_pos _
  have double : 2 ^ width = 2 * 2 ^ (width - 1) := by
    rw [Nat.mul_comm, ← Nat.pow_succ, Nat.succ_eq_add_one, Nat.sub_add_cancel (by omega)]
  have range : 2 ^ (width + 1) = 2 ^ (width - 1) * 4 := by
    rw [Nat.pow_succ, double]
    omega
  have size : ((2 ^ (width - 1) : Nat) : Int) = 2 ^ (width - 1) :=
    Int.natCast_pow 2 (width - 1)
  have place : WithinHalf width inputs t ↔
      effectiveReads width inputs t % 2 ^ (width - 1) +
        (effectiveWrites width inputs t - effectiveReads width inputs t) < 2 ^ (width - 1) := by
    unfold WithinHalf occupancy
    omega
  rw [place]
  cases t with
  | zero =>
      constructor
      · intro _
        rw [effectiveReads, effectiveWrites, Nat.zero_mod]
        exact half
      · intro _
        rfl
  | succ t =>
      have flag : (stateAt width inputs (t + 1)).sramAemptyOh =
          ((gray (stateAt width inputs (t + 1)).sramWrPtrF).extractLsb' (width - 1) 2 ==
            (gray (stateAt width inputs (t + 1)).sramRdPtrF).extractLsb' (width - 1) 2) := rfl
      rw [flag, beq_iff_eq, topGray_eq_iff (by omega), counts.wrPtr, counts.rdPtr,
        BitVec.toNat_ofNat, BitVec.toNat_ofNat, range]
      exact sameQuarter_iff half lower (by omega)

/-- The flag means less than a quarter exactly as long as fewer words than that stay
within one half of the memory and more words reach into the other half. -/
theorem aempty_quarter_iff (wide : 2 ≤ width) (t : Nat) :
    ((stateAt width inputs t).sramAemptyOh = true ↔
        occupancy width inputs t < 2 ^ (width - 2)) ↔
      (occupancy width inputs t < 2 ^ (width - 2) ∧ WithinHalf width inputs t) ∨
        (2 ^ (width - 2) ≤ occupancy width inputs t ∧ ¬ WithinHalf width inputs t) := by
  rw [aempty_iff width inputs wide t]
  by_cases few : occupancy width inputs t < 2 ^ (width - 2)
  · have notMany : ¬ 2 ^ (width - 2) ≤ occupancy width inputs t := Int.not_le.mpr few
    simp [few, notMany]
  · have many : 2 ^ (width - 2) ≤ occupancy width inputs t := Int.not_lt.mp few
    simp [few, many]

end Run

/-! ### A memory that is only written -/

def fill : Nat → Inputs := fun _ =>
  { sramFfRdEnIh := false
    sramFfWrEnIh := true }

theorem fill_counts (positive : 0 < width) :
    ∀ t ≤ 2 ^ width, effectiveWrites width fill t = t ∧ effectiveReads width fill t = 0 := by
  intro t
  induction t with
  | zero => exact fun _ => ⟨rfl, rfl⟩
  | succ t ih =>
      intro inside
      obtain ⟨writes, reads⟩ := ih (by omega)
      have counts := run_counts width fill positive t
      have room : (stateAt width fill t).sramFullOh = false := by
        rw [counts.full, writes, reads, decide_eq_false_iff_not]
        omega
      constructor
      · rw [effectiveWrites, writes, room]
        rfl
      · rw [effectiveReads, reads]
        rfl

theorem fill_occupancy (positive : 0 < width) {t : Nat} (inside : t ≤ 2 ^ width) :
    occupancy width fill t = t := by
  obtain ⟨writes, reads⟩ := fill_counts positive t inside
  rw [occupancy, writes, reads, Int.natCast_zero, Int.sub_zero]

theorem fill_withinHalf (positive : 0 < width) {t : Nat} (inside : t ≤ 2 ^ width) :
    WithinHalf width fill t ↔ t < 2 ^ (width - 1) := by
  rw [WithinHalf, fill_occupancy positive inside, (fill_counts positive t inside).2, Nat.zero_mod,
    Int.natCast_zero, Int.zero_add, ← Int.ofNat_lt, Int.natCast_pow]
  rfl

theorem flags_exact_fill :
    (stateAt 18 fill 262144).sramFullOh = true ∧ (stateAt 18 fill 262144).sramEmptyOh ≠ true ∧
      (sramWrAddrOd (stateAt 18 fill 262144)).toNat = 0 := by
  have words : occupancy 18 fill 262144 = 262144 := fill_occupancy (by decide) (by decide)
  obtain ⟨-, -, full, empty, -, address⟩ := flags_exact 18 fill (by decide) 262144
  refine ⟨full.mpr (words.trans (by decide)), fun none => ?_, ?_⟩
  · exact absurd (words.symm.trans (empty.mp none)) (by decide)
  · rw [address, (fill_counts (by decide) 262144 (by decide)).1]
    decide

/-- A quarter of the default memory, and still almost empty. -/
theorem aempty_quarter_full :
    ¬ ((stateAt 18 fill 65536).sramAemptyOh = true ↔ occupancy 18 fill 65536 < 2 ^ (18 - 2)) := by
  have words : occupancy 18 fill 65536 = 65536 := fill_occupancy (by decide) (by decide)
  have within : WithinHalf 18 fill 65536 :=
    (fill_withinHalf (by decide) (by decide)).mpr (by decide)
  intro quarter
  have few := quarter.mp ((aempty_iff 18 fill (by decide) 65536).mpr within)
  rw [words] at few
  exact absurd few (by decide)

/-- One word less, and two quarters. -/
theorem aempty_quarter_filling :
    ((stateAt 18 fill 65535).sramAemptyOh = true ↔ occupancy 18 fill 65535 < 2 ^ (18 - 2)) ∧
      ((stateAt 18 fill 131072).sramAemptyOh = true ↔
        occupancy 18 fill 131072 < 2 ^ (18 - 2)) := by
  have few : occupancy 18 fill 65535 = 65535 := fill_occupancy (by decide) (by decide)
  have many : occupancy 18 fill 131072 = 131072 := fill_occupancy (by decide) (by decide)
  constructor
  · refine (aempty_quarter_iff 18 fill (by decide) 65535).mpr (.inl ⟨?_, ?_⟩)
    · rw [few]
      decide
    · exact (fill_withinHalf (by decide) (by decide)).mpr (by decide)
  · refine (aempty_quarter_iff 18 fill (by decide) 131072).mpr (.inr ⟨?_, fun within => ?_⟩)
    · rw [many]
      decide
    · exact absurd ((fill_withinHalf (by decide) (by decide)).mp within) (by decide)

end Synesthesia.SramFfCntrlr
