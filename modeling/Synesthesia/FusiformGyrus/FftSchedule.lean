/-
The order in which `fgyrus_fsm` visits the 448 butterflies.

The sample counter walks through the blocks of a stage before the offset moves
on, so the offset is the outer loop here and the inner loop of the reference.
Within one stage the pairs are disjoint and the order does not matter.
-/

import Synesthesia.FusiformGyrus.FftReference

namespace Synesthesia.FftSchedule

open Synesthesia.Rtl
open Synesthesia.FgyrusFsm (bit rotate)

def wings : Nat := 448

/-! ### Registers during butterfly `n` -/

def stageNo (n : Nat) : Nat := n / 64

def offset (n : Nat) : Nat := n % 64 / 2 ^ (6 - stageNo n)

def block (n : Nat) : Nat := n % 64 % 2 ^ (6 - stageNo n)

def stageReg (n : Nat) : BitVec 7 := BitVec.ofNat 7 (2 ^ stageNo n)

def offsetReg (n : Nat) : BitVec 7 := BitVec.ofNat 7 (offset n)

def cntrReg (n : Nat) : BitVec 7 := BitVec.ofNat 7 (block n * 2 ^ (stageNo n + 1))

def twiddleReg (n : Nat) : BitVec 7 := BitVec.ofNat 7 (2 ^ stageNo n + offset n)

/-- The last block of an offset: the offset moves on. -/
def turn (n : Nat) : Bool := block n + 1 == 2 ^ (6 - stageNo n)

/-- Sample counter after butterfly `n`, with its carry. -/
def cntrNxt (n : Nat) : BitVec 8 :=
  (cntrReg n).setWidth 8 + ((stageReg n).extractLsb' 0 6 ++ BitVec.ofBool false).setWidth 8

/-- The offset register right after butterfly `n`; it may have reached the stage
number, which is corrected one clock later. -/
def turned (n : Nat) : BitVec 7 := offsetReg n + bit (turn n)

/-- Butterfly `n` leaves the registers to the next one, and only the last one ends the
transform. -/
structure Turns (n : Nat) : Prop where
  cntr : (cntrNxt n).extractLsb' 0 7 = cntrReg (n + 1)
  carry : ((cntrNxt n).getLsbD 7 || (stageReg n).getLsbD 6) = turn n
  early : (offsetReg n == stageReg n) = false
  last : ((turned n == stageReg n) && (stageReg n).getLsbD 6) = (n == wings - 1)
  settles : n < wings - 1 →
    (if turned n == stageReg n then 0 else turned n) = offsetReg (n + 1) ∧
      (if turned n == stageReg n then rotate (stageReg n) else stageReg n) = stageReg (n + 1) ∧
      twiddleReg n + bit (turn n) = twiddleReg (n + 1)

theorem turns {n : Nat} (inside : n < wings) : Turns n := by
  have table : ∀ n < wings,
      (cntrNxt n).extractLsb' 0 7 = cntrReg (n + 1) ∧
        ((cntrNxt n).getLsbD 7 || (stageReg n).getLsbD 6) = turn n ∧
        (offsetReg n == stageReg n) = false ∧
        ((turned n == stageReg n) && (stageReg n).getLsbD 6) = (n == wings - 1) ∧
        (n < wings - 1 →
          (if turned n == stageReg n then 0 else turned n) = offsetReg (n + 1) ∧
            (if turned n == stageReg n then rotate (stageReg n) else stageReg n) =
              stageReg (n + 1) ∧
            twiddleReg n + bit (turn n) = twiddleReg (n + 1)) := by
    decide +kernel
  obtain ⟨cntr, carry, early, last, settles⟩ := table n inside
  exact
    { cntr := cntr
      carry := carry
      early := early
      last := last
      settles := settles }

/-! ### Butterflies in the order of the sequencer -/

variable (twiddles : BitVec 7 → BitVec 32)

def wingAt (n : Nat) : Wing (BitVec 7) (ButterflyWing.Complex 32) :=
  FftReference.wing twiddles (stageNo n) (block n * 2 ^ (stageNo n + 1)) (offset n)

def wingsRun (start : FftReference.Cache) : Nat → FftReference.Cache
  | 0 => start
  | n + 1 => Wing.apply (wingsRun start n) (wingAt twiddles n)

/-- A butterfly never touches an operand of the next one, within a stage or
across the step to the next stage. -/
theorem wingAt_apart {n : Nat} (inside : n + 1 < wings) :
    Wing.Apart (wingAt twiddles (n + 1)) (wingAt twiddles n) := by
  have addresses : ∀ n < wings - 1,
      (wingAt (fun _ => 0) (n + 1)).first ≠ (wingAt (fun _ => 0) n).first ∧
        (wingAt (fun _ => 0) (n + 1)).first ≠ (wingAt (fun _ => 0) n).second ∧
        (wingAt (fun _ => 0) (n + 1)).second ≠ (wingAt (fun _ => 0) n).first ∧
        (wingAt (fun _ => 0) (n + 1)).second ≠ (wingAt (fun _ => 0) n).second := by
    decide +kernel
  obtain ⟨firsts, firstSecond, secondFirst, seconds⟩ := addresses n (by omega)
  exact
    { firsts := firsts
      firstSecond := firstSecond
      secondFirst := secondFirst
      seconds := seconds }

/-! ### The order inside a stage -/

/-- Block start and offset of every butterfly of a stage, as the reference runs
through them. -/
def stagePairs (s : Nat) : List (Nat × Nat) :=
  (List.range (64 / 2 ^ s)).flatMap fun block =>
    (List.range (2 ^ s)).map fun j => (block * 2 ^ (s + 1), j)

theorem sequencer_perm : ∀ s < 7,
    ((List.range 64).map fun r =>
      (block (64 * s + r) * 2 ^ (s + 1), offset (64 * s + r))).Perm (stagePairs s) := by
  decide +kernel

theorem stageNo_mul_add {s r : Nat} (small : r < 64) : stageNo (64 * s + r) = s := by
  rw [stageNo]
  omega

def wingOfPair (s : Nat) (pair : Nat × Nat) : Wing (BitVec 7) (ButterflyWing.Complex 32) :=
  FftReference.wing twiddles s pair.1 pair.2

theorem stagePairs_apart {s : Nat} (small : s < 7) :
    ∀ left ∈ stagePairs s, ∀ right ∈ stagePairs s,
      left = right ∨ Wing.Apart (wingOfPair twiddles s left) (wingOfPair twiddles s right) := by
  intro left leftIn right rightIn
  simp only [stagePairs, List.mem_flatMap, List.mem_map, List.mem_range] at leftIn rightIn
  obtain ⟨blockL, insideL, j, smallJ, rfl⟩ := leftIn
  obtain ⟨blockR, insideR, j', smallJ', rfl⟩ := rightIn
  by_cases same : blockL = blockR ∧ j = j'
  · rw [same.1, same.2]
    exact .inl rfl
  · right
    have cases : s = 0 ∨ s = 1 ∨ s = 2 ∨ s = 3 ∨ s = 4 ∨ s = 5 ∨ s = 6 := by omega
    have differ : ∀ x y : Nat, x < 128 → y < 128 → x ≠ y →
        BitVec.ofNat 7 x ≠ BitVec.ofNat 7 y := by
      intro x y smallX smallY different equal
      have values := congrArg BitVec.toNat equal
      rw [BitVec.toNat_ofNat, BitVec.toNat_ofNat, Nat.mod_eq_of_lt smallX,
        Nat.mod_eq_of_lt smallY] at values
      exact different values
    rcases cases with rfl | rfl | rfl | rfl | rfl | rfl | rfl <;>
      (constructor <;> (apply differ <;> omega))

theorem stage_eq_foldl (cache : FftReference.Cache) (s : Nat) :
    FftReference.stage twiddles cache s =
      ((stagePairs s).map (wingOfPair twiddles s)).foldl Wing.apply cache := by
  rw [stagePairs, List.foldl_map, List.foldl_flatMap]
  simp only [List.foldl_map]
  rfl

theorem wingsRun_add (start : FftReference.Cache) (first count : Nat) :
    wingsRun twiddles start (first + count) =
      ((List.range count).map fun r => wingAt twiddles (first + r)).foldl Wing.apply
        (wingsRun twiddles start first) := by
  induction count with
  | zero => rfl
  | succ count ih =>
      rw [← Nat.add_assoc, wingsRun, ih, List.range_succ, List.map_append, List.foldl_append]
      rfl

/-- One stage of the sequencer is one stage of the reference. -/
theorem wingsRun_stage (start : FftReference.Cache) {s : Nat} (small : s < 7) :
    wingsRun twiddles start (64 * (s + 1)) =
      FftReference.stage twiddles (wingsRun twiddles start (64 * s)) s := by
  have order : ((List.range 64).map fun r => wingAt twiddles (64 * s + r)) =
      ((List.range 64).map fun r =>
        (block (64 * s + r) * 2 ^ (s + 1), offset (64 * s + r))).map (wingOfPair twiddles s) := by
    rw [List.map_map]
    apply List.map_congr_left
    intro r inside
    rw [wingAt, stageNo_mul_add (List.mem_range.mp inside)]
    rfl
  rw [Nat.mul_succ, wingsRun_add, order,
    stage_eq_foldl]
  have perm := sequencer_perm s small
  refine Wing.foldl_perm (perm.map _) ?_ _
  intro left leftIn right rightIn
  obtain ⟨pairL, memberL, rfl⟩ := List.mem_map.mp leftIn
  obtain ⟨pairR, memberR, rfl⟩ := List.mem_map.mp rightIn
  rcases stagePairs_apart twiddles small pairL (perm.mem_iff.mp memberL) pairR
    (perm.mem_iff.mp memberR) with rfl | apart
  · exact .inl rfl
  · exact .inr apart

/-- All butterflies of the sequencer together are the reference transform. -/
theorem wingsRun_eq_fft (frame : BitVec 7 → BitVec 32) :
    wingsRun twiddles (FftReference.load frame) wings = FftReference.fft twiddles frame := by
  have stages : ∀ count ≤ 7, wingsRun twiddles (FftReference.load frame) (64 * count) =
      (List.range count).foldl (FftReference.stage twiddles) (FftReference.load frame) := by
    intro count
    induction count with
    | zero =>
        intro _
        rfl
    | succ count ih =>
        intro inside
        rw [wingsRun_stage twiddles _ (by omega), ih (by omega), List.range_succ,
          List.foldl_append]
        rfl
  exact stages 7 (Nat.le_refl 7)

end Synesthesia.FftSchedule
