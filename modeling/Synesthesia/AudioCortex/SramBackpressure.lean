/-
Back-pressure of the Avalon-ST port of the SRAM path.

`lb_st_ready_oh` is the slot decode alone.  A handshaked word is stored exactly
when the FIFO has room in that cycle; once the memory is full, a ready slot
still takes words and drops them.
-/

import Synesthesia.AudioCortex.SramStream

namespace Synesthesia.SramPath

open Synesthesia.Rtl

/-- Words in a FIFO of `2 ^ 18` words that is offered a word in every valid
clock of a streaming slot and asked for one in every requesting clock of an
internal slot. -/
def fifoCount (inputs : Nat → Inputs) : Nat → Nat
  | 0 => 0
  | t + 1 =>
      let count := fifoCount inputs t
      let push := SramArb.slotOwner (t % 34) = .avSt ∧
        (inputs t).lbStValidIh = true ∧ count < 2 ^ 18
      let pop := SramArb.slotOwner (t % 34) = .im ∧
        (inputs t).imRdReqIh = true ∧ 0 < count
      count + (if push then 1 else 0) - (if pop then 1 else 0)

section Runs

variable (contents : BitVec 18 → BitVec 16) (inputs : Nat → Inputs)

/-- `lb_st_valid_ih` in a cycle with `lb_st_ready_oh`. -/
def handshake (t : Nat) : Bool :=
  SramArb.lbStReadyOh (stateAt contents inputs t).arb && (inputs t).lbStValidIh

/-- The word of the cycle reaches the memory at the write pointer, and the
pointer advances. -/
def Stored (t : Nat) : Prop :=
  (stateAt contents inputs (t + 3)).memory
      (SramFfCntrlr.sramWrAddrOd (stateAt contents inputs t).ff) =
    (inputs t).lbStDataId ∧
  (stateAt contents inputs (t + 1)).ff.sramWrPtrF =
    (stateAt contents inputs t).ff.sramWrPtrF + 1

end Runs

theorem stateAt_slot (contents : BitVec 18 → BitVec 16) (inputs : Nat → Inputs)
    (t : Nat) :
    (stateAt contents inputs t).arb.arbSelF = SramArb.slotOwner (t % 34) := by
  have projected : (stateAt contents inputs t).arb =
      run SramArb.step SramArb.reset
        (fun u => arbInputs (stateAt contents inputs u) (inputs u)) t := by
    induction t with
    | zero => rfl
    | succ t ih =>
        rw [run_succ, ← ih]
        rfl
  rw [projected]
  exact (SramArb.run_slot _ t).1

theorem fullOh_of_counts {regs : SramFfCntrlr.Regs 18} {reads count : Nat}
    (counts : SramFfCntrlr.Counts regs (reads + count) reads) :
    regs.sramFullOh = !decide (count < 2 ^ 18) := by
  have upper := counts.upper
  rw [counts.full, ← decide_not]
  exact decide_eq_decide.mpr (by omega)

theorem emptyOh_of_counts {regs : SramFfCntrlr.Regs 18} {reads count : Nat}
    (counts : SramFfCntrlr.Counts regs (reads + count) reads) :
    regs.sramEmptyOh = !decide (0 < count) := by
  rw [counts.empty, ← decide_not]
  exact decide_eq_decide.mpr (by omega)

/-- The pointers are `fifoCount` words apart in every cycle. -/
theorem fifoCount_counts (contents : BitVec 18 → BitVec 16)
    (inputs : Nat → Inputs) (t : Nat) :
    ∃ reads, SramFfCntrlr.Counts (stateAt contents inputs t).ff
      (reads + fifoCount inputs t) reads := by
  induction t with
  | zero => exact ⟨0, SramFfCntrlr.reset_counts⟩
  | succ t ih =>
      obtain ⟨reads, counts⟩ := ih
      have slot := stateAt_slot contents inputs t
      have next := SramFfCntrlr.step_counts (by decide : 0 < 18) counts
        (ffInputs (stateAt contents inputs t) (inputs t))
      rw [incWrAddrC_eq_stAccept, incRdAddrC_eq_imIssue] at next
      have accept : (stAccept (stateAt contents inputs t) (inputs t)).toNat =
          if SramArb.slotOwner (t % 34) = .avSt ∧ (inputs t).lbStValidIh = true ∧
            fifoCount inputs t < 2 ^ 18 then 1 else 0 := by
        rw [stAccept, SramArb.lbStReadyOh, SramArb.arbAvStSelC, slot,
          fullOh_of_counts counts]
        cases (inputs t).lbStValidIh <;>
          by_cases streaming : SramArb.slotOwner (t % 34) = .avSt <;>
          by_cases room : fifoCount inputs t < 2 ^ 18 <;>
          simp only [streaming, room] <;> rfl
      have issue : (imIssue (stateAt contents inputs t) (inputs t)).toNat =
          if SramArb.slotOwner (t % 34) = .im ∧ (inputs t).imRdReqIh = true ∧
            0 < fifoCount inputs t then 1 else 0 := by
        rw [imIssue, SramArb.arbImSelC, slot, emptyOh_of_counts counts]
        cases (inputs t).imRdReqIh <;>
          by_cases reading : SramArb.slotOwner (t % 34) = .im <;>
          by_cases some : 0 < fifoCount inputs t <;>
          simp only [reading, some] <;> rfl
      refine ⟨reads + (imIssue (stateAt contents inputs t) (inputs t)).toNat, ?_⟩
      have lower := next.lower
      have total : reads + (imIssue (stateAt contents inputs t) (inputs t)).toNat +
            fifoCount inputs (t + 1) =
          reads + fifoCount inputs t +
            (stAccept (stateAt contents inputs t) (inputs t)).toNat := by
        simp only [fifoCount]
        rw [← accept, ← issue]
        omega
      rw [total]
      exact next

theorem stored_iff_room (contents : BitVec 18 → BitVec 16)
    (inputs : Nat → Inputs) (t : Nat)
    (taken : handshake contents inputs t = true) :
    Stored contents inputs t ↔ fifoCount inputs t < 2 ^ 18 := by
  obtain ⟨reads, counts⟩ := fifoCount_counts contents inputs t
  simp only [handshake, Bool.and_eq_true] at taken
  obtain ⟨ready, valid⟩ := taken
  have accept : stAccept (stateAt contents inputs t) (inputs t) =
      decide (fifoCount inputs t < 2 ^ 18) := by
    rw [stAccept, ready, valid, fullOh_of_counts counts]
    simp only [Bool.and_self, Bool.not_not, Bool.true_and]
  have pointer : (stateAt contents inputs (t + 1)).ff.sramWrPtrF =
      (stateAt contents inputs t).ff.sramWrPtrF +
        BitVec.ofNat _ (stAccept (stateAt contents inputs t) (inputs t)).toNat := by
    rw [← incWrAddrC_eq_stAccept]
    rfl
  constructor
  · rintro ⟨_, advanced⟩
    by_contra noRoom
    rw [pointer, accept, decide_eq_false noRoom] at advanced
    have impossible := BitVec.add_right_inj _ |>.mp advanced
    exact absurd impossible (by decide)
  · intro room
    rw [decide_eq_true room] at accept
    refine ⟨?_, ?_⟩
    · have streaming : mmWrite (stateAt contents inputs t) (inputs t) = false := by
        simp only [SramArb.lbStReadyOh, SramArb.arbAvStSelC, decide_eq_true_eq] at ready
        simp [mmWrite, SramArb.lbMmArbGrantOh, SramArb.arbAvMmSel1C,
          SramArb.arbAvMmSel2C, ready]
      change landed (stateAt contents inputs (t + 2)) _ = _
      change landed (step (stateAt contents inputs (t + 1)) (inputs (t + 1))) _ = _
      rw [landed_step (run_wired contents inputs (t + 1)), scheduled_eq_clientMemory]
      simp [clientMemory, accept, streaming]
    · rw [pointer, accept]
      rfl

/-- Over any stretch of a run, no handshaked word is dropped exactly when every
handshake finds fewer than `2 ^ 18` unread words in the FIFO. -/
theorem handshakes_stored_iff (contents : BitVec 18 → BitVec 16)
    (inputs : Nat → Inputs) (horizon : Nat) :
    (∀ t, t < horizon → handshake contents inputs t = true →
        Stored contents inputs t) ↔
      (∀ t, t < horizon → handshake contents inputs t = true →
        fifoCount inputs t < 2 ^ 18) := by
  constructor
  · intro stored t inside taken
    exact (stored_iff_room contents inputs t taken).mp (stored t inside taken)
  · intro room t inside taken
    exact (stored_iff_room contents inputs t taken).mpr (room t inside taken)

/-! ### A source that keeps the memory full -/

def floodInputs : Nat → Inputs := fun _ =>
  { lbStDataId := 1
    lbStValidIh := true
    lbMmRdEnIh := false
    lbMmWrEnIh := false
    lbMmAddrId := 0
    lbMmWrDataId := 0
    imRdReqIh := false }

theorem fifoCount_flood_slot (rotation : Nat) (start : fifoCount floodInputs (34 * rotation) =
      16 * rotation) (room : 16 * rotation + 16 ≤ 2 ^ 18) :
    ∀ clock, clock ≤ 34 →
      fifoCount floodInputs (34 * rotation + clock) = 16 * rotation + min clock 16 := by
  intro clock
  induction clock with
  | zero => intro _; simpa using start
  | succ clock ih =>
      intro inside
      have before := ih (by omega)
      have position : (34 * rotation + clock) % 34 = clock := by omega
      rw [← Nat.add_assoc]
      simp only [fifoCount, before, position]
      by_cases streaming : clock < 16
      · simp only [SramArb.slotOwner, streaming, floodInputs, if_true, true_and,
          reduceCtorEq, false_and, if_false]
        rw [if_pos (by omega)]
        omega
      · by_cases single : clock < 17 <;> by_cases reading : clock < 33 <;>
          simp [SramArb.slotOwner, streaming, single, reading, floodInputs] <;> omega

theorem fifoCount_flood (rotation : Nat) (room : 16 * rotation ≤ 2 ^ 18) :
    fifoCount floodInputs (34 * rotation) = 16 * rotation := by
  induction rotation with
  | zero => rfl
  | succ rotation ih =>
      have slot := fifoCount_flood_slot rotation (ih (by omega)) (by omega) 34 (by omega)
      rw [Nat.mul_succ, slot]
      omega

/-- After `2 ^ 14` rotations the memory is full, and the first word of the next
streaming slot is handshaked and lost. -/
theorem flood_handshake_dropped :
    ¬ ∀ t, handshake (fun _ => 0) floodInputs t = true →
        Stored (fun _ => 0) floodInputs t := by
  intro stored
  have taken : handshake (fun _ => 0) floodInputs (34 * 2 ^ 14) = true := by
    simp [handshake, SramArb.lbStReadyOh, SramArb.arbAvStSelC, stateAt_slot,
      SramArb.slotOwner, floodInputs]
  have room := (stored_iff_room _ _ _ taken).mp (stored _ taken)
  rw [fifoCount_flood (2 ^ 14) (by decide)] at room
  omega

end Synesthesia.SramPath
