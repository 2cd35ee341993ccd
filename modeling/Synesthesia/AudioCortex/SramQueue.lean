/-
The SRAM path as a queue.

Without host access the arbiter, the pointers, the driver and the memory behave
as one list of unread words with a three-stage read pipeline.  The queue is what
the path is for; `Shows` relates it to the registers, and every clock edge
keeps the relation.
-/

import Synesthesia.AudioCortex.SramStream

namespace Synesthesia.SramQueue

open Synesthesia.Rtl

structure Queue where
  /-- Clock within the rotation of the arbiter. -/
  clock : Nat
  unread : List (BitVec 16)
  issued : Option (BitVec 16)
  driven : Option (BitVec 16)
  valid : Bool
  bus : BitVec 16
  deriving DecidableEq

def init : Queue :=
  { clock := 0
    unread := []
    issued := none
    driven := none
    valid := false
    bus := 0 }

def ready (queue : Queue) : Bool := decide (SramArb.slotOwner queue.clock = .avSt)

def accepts (queue : Queue) (stValid : Bool) : Bool :=
  stValid && ready queue && decide (queue.unread.length < 2 ^ 18)

def issues (queue : Queue) (imRdReq : Bool) : Bool :=
  decide (SramArb.slotOwner queue.clock = .im) && imRdReq && !queue.unread.isEmpty

def step (queue : Queue) (stValid : Bool) (stData : BitVec 16) (imRdReq : Bool) : Queue :=
  { clock := (queue.clock + 1) % 34
    unread :=
      (if issues queue imRdReq then queue.unread.tail else queue.unread) ++
        strobed (accepts queue stValid) stData
    issued := if issues queue imRdReq then queue.unread.head? else none
    driven := queue.issued
    valid := queue.driven.isSome
    bus := queue.driven.getD queue.bus }

/-- The registers of the path show this queue. -/
structure Shows (state : SramPath.State) (queue : Queue) : Prop where
  wired : SramPath.Wired state
  clock : queue.clock < 34
  slot : state.arb.arbSelF = SramArb.slotOwner queue.clock
  cntr : state.arb.arbCntrF = SramArb.slotCntr queue.clock
  unread : ∃ writes reads, SramFfCntrlr.Counts state.ff writes reads ∧
    window (SramPath.scheduled state) reads (writes - reads) = queue.unread
  issued : queue.issued = if state.arb.arbImRdReq1d then
    some (SramPath.scheduled state state.arb.sramAddrOd) else none
  driven : queue.driven = if state.arb.arbImRdReq2d then
    some (SramPath.landed state state.drvr.sramAddr) else none
  valid : state.arb.imRdValidOh = queue.valid
  bus : SramPath.sramRdDataId state = queue.bus
  reading : state.arb.sramRdEnOh = state.arb.arbImRdReq1d
  sampling : state.drvr.sramOeN = !state.arb.arbImRdReq2d

theorem shows_reset (contents : BitVec 18 → BitVec 16) :
    Shows (SramPath.reset contents) init where
  wired := SramPath.reset_wired contents
  clock := by decide
  slot := rfl
  cntr := rfl
  unread := ⟨0, 0, SramFfCntrlr.reset_counts, rfl⟩
  issued := rfl
  driven := rfl
  valid := rfl
  bus := rfl
  reading := rfl
  sampling := rfl

section Step

variable {state : SramPath.State} {queue : Queue} {inputs : SramPath.Inputs}

def Quiet (inputs : SramPath.Inputs) : Prop :=
  inputs.lbMmRdEnIh = false ∧ inputs.lbMmWrEnIh = false

theorem Shows.empty (shown : Shows state queue) :
    state.ff.sramEmptyOh = queue.unread.isEmpty := by
  obtain ⟨writes, reads, counts, words⟩ := shown.unread
  have size := congrArg List.length words
  rw [window_length] at size
  have lower := counts.lower
  rw [counts.empty, Bool.eq_iff_iff, decide_eq_true_iff, List.isEmpty_iff_length_eq_zero]
  omega

theorem Shows.full (shown : Shows state queue) :
    state.ff.sramFullOh = !decide (queue.unread.length < 2 ^ 18) := by
  obtain ⟨writes, reads, counts, words⟩ := shown.unread
  have size := congrArg List.length words
  rw [window_length] at size
  have lower := counts.lower
  have upper := counts.upper
  rw [counts.full, Bool.eq_iff_iff]
  simp only [decide_eq_true_iff, Bool.not_eq_true', decide_eq_false_iff_not]
  omega

theorem Shows.accepts (shown : Shows state queue) :
    SramPath.stAccept state inputs = accepts queue inputs.lbStValidIh := by
  rw [SramPath.stAccept, SramQueue.accepts, SramArb.lbStReadyOh, SramArb.arbAvStSelC,
    shown.slot, shown.full, Bool.not_not, ready]

theorem Shows.issues (shown : Shows state queue) :
    SramPath.imIssue state inputs = issues queue inputs.imRdReqIh := by
  rw [SramPath.imIssue, SramQueue.issues, SramArb.arbImSelC, shown.slot, shown.empty]

theorem Shows.request_rdEn (quiet : Quiet inputs) :
    (SramArb.request state.arb (SramPath.arbInputs state inputs)).rdEn =
      SramPath.imIssue state inputs := by
  cases slot : state.arb.arbSelF <;>
    simp [SramArb.request, SramPath.arbInputs, SramPath.imIssue, SramArb.arbImSelC, slot,
      quiet.1]

/-- An issued read and an accepted word never meet in one clock. -/
theorem not_accepts_of_issues {imRdReq : Bool} (issue : SramQueue.issues queue imRdReq = true)
    (stValid : Bool) : SramQueue.accepts queue stValid = false := by
  simp only [SramQueue.issues, Bool.and_eq_true, decide_eq_true_eq] at issue
  simp [SramQueue.accepts, ready, issue.1.1]

/-- The list of unread words moves as the window in the memory does. -/
theorem Shows.unread_step (shown : Shows state queue) (quiet : Quiet inputs) :
    (∃ writes reads,
      SramFfCntrlr.Counts (SramPath.step state inputs).ff writes reads ∧
        window (SramPath.scheduled (SramPath.step state inputs)) reads (writes - reads) =
          (step queue inputs.lbStValidIh inputs.lbStDataId inputs.imRdReqIh).unread) ∧
      (SramQueue.issues queue inputs.imRdReqIh = true → queue.unread.head? =
        some (SramPath.scheduled (SramPath.step state inputs)
          (SramArb.request state.arb (SramPath.arbInputs state inputs)).addr)) := by
  obtain ⟨writes, reads, counts, words⟩ := shown.unread
  have clear : SramPath.HostClear state inputs := by
    intro writing
    simp [SramPath.mmWrite, quiet.2] at writing
  have moved := SramPath.stored_step shown.wired counts inputs clear
  rw [words, shown.accepts, shown.issues] at moved
  have nextCounts := SramFfCntrlr.step_counts (by decide : 0 < 18) counts
    (SramPath.ffInputs state inputs)
  rw [SramPath.incWrAddrC_eq_stAccept, SramPath.incRdAddrC_eq_imIssue, shown.accepts,
    shown.issues] at nextCounts
  cases issue : SramQueue.issues queue inputs.imRdReqIh with
  | false =>
      rw [issue] at moved nextCounts
      refine ⟨⟨_, _, nextCounts, ?_⟩, fun issued => by cases issued⟩
      rw [strobed_false, List.nil_append] at moved
      rw [moved]
      simp [step, issue]
  | true =>
      have alone := not_accepts_of_issues issue inputs.lbStValidIh
      rw [issue, alone] at moved nextCounts
      rw [strobed_true, strobed_false, List.append_nil, List.singleton_append] at moved
      refine ⟨⟨_, _, nextCounts, ?_⟩, fun _ => ?_⟩
      · simp only [step, issue, alone, reduceIte, strobed_false, List.append_nil]
        rw [← moved]
        rfl
      · rw [← moved]
        rfl

theorem shows_step (shown : Shows state queue) (quiet : Quiet inputs) :
    Shows (SramPath.step state inputs)
      (step queue inputs.lbStValidIh inputs.lbStDataId inputs.imRdReqIh) := by
  obtain ⟨unread, head⟩ := shown.unread_step quiet
  have next := SramArb.slot_next ⟨queue.clock, shown.clock⟩
  have issued : (SramPath.step state inputs).arb.arbImRdReq1d =
      SramQueue.issues queue inputs.imRdReqIh := shown.issues
  exact
    { wired := SramPath.step_wired shown.wired inputs
      clock := Nat.mod_lt _ (by decide)
      slot := by
        rw [step, ← next.1, ← shown.slot, ← shown.cntr]
        rfl
      cntr := by
        rw [step, ← next.2, ← shown.slot, ← shown.cntr]
        rfl
      unread := unread
      issued := by
        rw [issued]
        simp only [step]
        split
        · exact head ‹_›
        · rfl
      driven := by
        rw [SramPath.landed_step shown.wired]
        exact shown.issued
      valid := by
        simp only [step, shown.driven]
        change state.arb.arbImRdReq2d = _
        cases state.arb.arbImRdReq2d <;> rfl
      bus := by
        simp only [step, shown.driven]
        cases tracked : state.arb.arbImRdReq2d with
        | true =>
            rw [SramPath.readdata_step shown.wired inputs (shown.wired.im2d tracked)]
            rfl
        | false =>
            have idle := shown.sampling
            rw [tracked] at idle
            simp only [Bool.false_eq_true, reduceIte, Option.getD_none, ← shown.bus]
            simp [SramPath.sramRdDataId, SramPath.step, SramDrvr.step, idle]
      reading := Shows.request_rdEn quiet
      sampling := by
        have reading := shown.reading
        cases tracked : state.arb.arbImRdReq1d <;>
          simp_all [SramPath.step, SramDrvr.step, SramPath.drvrInputs, SramArb.step] }

end Step

/-! ### Conservation -/

/-- Words accepted and not yet presented in an earlier cycle, oldest first. -/
def pending (queue : Queue) : List (BitVec 16) :=
  strobed queue.valid queue.bus ++
    (queue.driven.toList ++ (queue.issued.toList ++ queue.unread))

def inFlight (queue : Queue) : Nat :=
  queue.valid.toNat + queue.driven.isSome.toNat + queue.issued.isSome.toNat

theorem strobed_isSome (word : Option (BitVec 16)) (default : BitVec 16) :
    strobed word.isSome (word.getD default) = word.toList := by
  cases word <;> rfl

theorem pending_step (queue : Queue) (stValid : Bool) (stData : BitVec 16)
    (imRdReq : Bool) :
    strobed queue.valid queue.bus ++ pending (step queue stValid stData imRdReq) =
      pending queue ++ strobed (accepts queue stValid) stData := by
  have moved : (if issues queue imRdReq then queue.unread.head? else none).toList ++
      (if issues queue imRdReq then queue.unread.tail else queue.unread) =
        queue.unread := by
    cases issue : issues queue imRdReq with
    | false => simp
    | true =>
        simp only [issues, Bool.and_eq_true, Bool.not_eq_true'] at issue
        cases words : queue.unread with
        | nil => simp [words] at issue
        | cons word rest => rfl
  have extended := congrArg
    (fun words => words ++ strobed (accepts queue stValid) stData) moved
  simp only [List.append_assoc] at extended
  simp only [pending, step, strobed_isSome, List.append_assoc, extended]

theorem inFlight_step (queue : Queue) (stValid : Bool) (stData : BitVec 16)
    (imRdReq : Bool) :
    queue.valid.toNat + inFlight (step queue stValid stData imRdReq) =
      inFlight queue + (issues queue imRdReq).toNat := by
  have issued : (if issues queue imRdReq then queue.unread.head? else none).isSome =
      issues queue imRdReq := by
    cases issue : issues queue imRdReq with
    | false => simp
    | true =>
        simp only [issues, Bool.and_eq_true, Bool.not_eq_true'] at issue
        cases words : queue.unread with
        | nil => simp [words] at issue
        | cons word rest => rfl
  simp only [inFlight, step, issued]
  omega

theorem inFlight_le (queue : Queue) : inFlight queue ≤ 3 := by
  have valid := Bool.toNat_le queue.valid
  have driven := Bool.toNat_le queue.driven.isSome
  have issued := Bool.toNat_le queue.issued.isSome
  unfold inFlight
  omega

end Synesthesia.SramQueue
