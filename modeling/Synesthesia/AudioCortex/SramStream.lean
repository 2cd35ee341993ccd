/-
The streamed words of the SRAM path form a lossless queue.

Words accepted from the Avalon-ST port, words on their way out and words
already presented to the internal module are compared as lists.  The
conservation law says that presented, in-flight and stored words, in this
order, are always exactly the accepted ones.
-/

import Synesthesia.AudioCortex.SramPath

namespace Synesthesia.SramPath

open Synesthesia.Rtl

/-! ### Effective reads and writes -/

theorem incWrAddrC_eq_stAccept (state : State) (inputs : Inputs) :
    SramFfCntrlr.incWrAddrC state.ff (ffInputs state inputs) =
      stAccept state inputs := by
  simp only [SramFfCntrlr.incWrAddrC, ffInputs, SramArb.sramFfWrEnOh, stAccept,
    SramArb.lbStReadyOh]
  cases SramArb.arbAvStSelC state.arb <;> simp

theorem incRdAddrC_eq_imIssue (state : State) (inputs : Inputs) :
    SramFfCntrlr.incRdAddrC state.ff (ffInputs state inputs) =
      imIssue state inputs := by
  simp only [SramFfCntrlr.incRdAddrC, ffInputs, SramArb.sramFfRdEnOh, imIssue]
  cases SramArb.arbImSelC state.arb <;> simp

theorem occupancy_eq {state : State} {writes reads : Nat}
    (counts : SramFfCntrlr.Counts state.ff writes reads) :
    occupancy state = writes - reads := by
  have lower := counts.lower
  have upper := counts.upper
  rw [occupancy, counts.wrPtr, counts.rdPtr]
  have split : writes = (writes - reads) + reads := by omega
  have difference : BitVec.ofNat (18 + 1) writes - BitVec.ofNat (18 + 1) reads =
      BitVec.ofNat (18 + 1) (writes - reads) := by
    rw [BitVec.sub_eq_iff_eq_add, ← BitVec.ofNat_add, ← split]
  rw [difference, BitVec.toNat_ofNat]
  exact Nat.mod_eq_of_lt (by omega)

theorem live_iff {state : State} {writes reads : Nat}
    (counts : SramFfCntrlr.Counts state.ff writes reads) (address : BitVec 18) :
    Live state address ↔
      ∃ offset, offset < writes - reads ∧
        BitVec.ofNat 18 (reads + offset) = address := by
  have position : ∀ offset,
      BitVec.ofNat 18 (state.ff.sramRdPtrF.toNat + offset) =
        BitVec.ofNat 18 (reads + offset) := by
    intro offset
    rw [counts.rdPtr]
    apply BitVec.eq_of_toNat_eq
    simp only [BitVec.toNat_ofNat]
    omega
  simp only [Live, occupancy_eq counts, position]

/-! ### One clock edge -/

/-- Reads issued for the internal module whose word is not yet presented in an
earlier cycle, oldest first. -/
def inFlight (state : State) : List (BitVec 16) :=
  strobed state.arb.imRdValidOh (sramRdDataId state) ++
    (strobed state.arb.arbImRdReq2d (landed state state.drvr.sramAddr) ++
      strobed state.arb.arbImRdReq1d (scheduled state state.arb.sramAddrOd))

/-- A host write granted in this cycle does not hit an unread streamed word. -/
def HostClear (state : State) (inputs : Inputs) : Prop :=
  mmWrite state inputs = true → ¬ Live state inputs.lbMmAddrId

theorem readdata_step {state : State} (wired : Wired state) (inputs : Inputs)
    (reading : state.drvr.sramOeN = false) :
    sramRdDataId (step state inputs) = landed state state.drvr.sramAddr := by
  rw [← sramDq_eq_landed wired reading]
  simp [sramRdDataId, step, SramDrvr.step, reading]

theorem inFlight_step {state : State} (wired : Wired state) (inputs : Inputs) :
    strobed state.arb.imRdValidOh (sramRdDataId state) ++
        inFlight (step state inputs) =
      inFlight state ++
        strobed (imIssue state inputs)
          (scheduled (step state inputs)
            (SramArb.request state.arb (arbInputs state inputs)).addr) := by
  have presented :
      strobed (step state inputs).arb.imRdValidOh (sramRdDataId (step state inputs)) =
        strobed state.arb.arbImRdReq2d (landed state state.drvr.sramAddr) := by
    change strobed state.arb.arbImRdReq2d _ = _
    cases tracked : state.arb.arbImRdReq2d with
    | false => rfl
    | true => rw [readdata_step wired inputs (wired.im2d tracked)]
  have driven :
      strobed (step state inputs).arb.arbImRdReq2d
          (landed (step state inputs) (step state inputs).drvr.sramAddr) =
        strobed state.arb.arbImRdReq1d (scheduled state state.arb.sramAddrOd) := by
    rw [landed_step wired]
    rfl
  have issued :
      (step state inputs).arb.arbImRdReq1d = imIssue state inputs := rfl
  have address : (step state inputs).arb.sramAddrOd =
      (SramArb.request state.arb (arbInputs state inputs)).addr := rfl
  simp only [inFlight, presented, driven, issued, address, List.append_assoc]

/-- In a memory-mapped slot nothing is accepted or issued, and the host word
goes to an address outside the window of unread words. -/
theorem stored_host {state : State} {writes reads : Nat}
    (counts : SramFfCntrlr.Counts state.ff writes reads) (inputs : Inputs)
    (clear : HostClear state inputs)
    (slot : state.arb.arbSelF = .avMm1 ∨ state.arb.arbSelF = .avMm2) :
    strobed (imIssue state inputs)
        (store (scheduled state)
          (SramArb.request state.arb (arbInputs state inputs)).wrEn
          (SramArb.request state.arb (arbInputs state inputs)).addr
          (SramArb.request state.arb (arbInputs state inputs)).wrData
          (SramArb.request state.arb (arbInputs state inputs)).addr) ++
        window (store (scheduled state)
            (SramArb.request state.arb (arbInputs state inputs)).wrEn
            (SramArb.request state.arb (arbInputs state inputs)).addr
            (SramArb.request state.arb (arbInputs state inputs)).wrData)
          (reads + (imIssue state inputs).toNat)
          (writes + (stAccept state inputs).toNat -
            (reads + (imIssue state inputs).toNat)) =
      window (scheduled state) reads (writes - reads) ++
        strobed (stAccept state inputs) inputs.lbStDataId := by
  have noIssue : imIssue state inputs = false := by
    rcases slot with slot | slot <;> simp [imIssue, SramArb.arbImSelC, slot]
  have noAccept : stAccept state inputs = false := by
    rcases slot with slot | slot <;>
      simp [stAccept, SramArb.lbStReadyOh, SramArb.arbAvStSelC, slot]
  have host : SramArb.request state.arb (arbInputs state inputs) =
      { wrEn := inputs.lbMmWrEnIh
        rdEn := inputs.lbMmRdEnIh
        addr := inputs.lbMmAddrId
        wrData := inputs.lbMmWrDataId } := by
    rcases slot with slot | slot <;> simp [SramArb.request, arbInputs, slot]
  have granted : SramArb.lbMmArbGrantOh state.arb = true := by
    rcases slot with slot | slot <;>
      simp [SramArb.lbMmArbGrantOh, SramArb.arbAvMmSel1C, SramArb.arbAvMmSel2C, slot]
  rw [noIssue, noAccept, host]
  simp only [strobed_false, List.nil_append, List.append_nil, Bool.toNat_false,
    Nat.add_zero]
  apply window_store_outside
  intro writing offset inside same
  refine clear ?_ ((live_iff counts _).mpr ⟨offset, inside, same⟩)
  simp [mmWrite, granted, writing]

/-- Stored words lose their head to an issued read and gain an accepted word
at their end; a host write elsewhere does not touch them. -/
theorem stored_step {state : State} {writes reads : Nat} (wired : Wired state)
    (counts : SramFfCntrlr.Counts state.ff writes reads) (inputs : Inputs)
    (clear : HostClear state inputs) :
    strobed (imIssue state inputs)
        (scheduled (step state inputs)
          (SramArb.request state.arb (arbInputs state inputs)).addr) ++
        window (scheduled (step state inputs))
          (reads + (imIssue state inputs).toNat)
          (writes + (stAccept state inputs).toNat -
            (reads + (imIssue state inputs).toNat)) =
      window (scheduled state) reads (writes - reads) ++
        strobed (stAccept state inputs) inputs.lbStDataId := by
  have lower := counts.lower
  have upper := counts.upper
  rw [scheduled_step wired]
  cases slot : state.arb.arbSelF with
  | avSt =>
      have noIssue : imIssue state inputs = false := by
        simp [imIssue, SramArb.arbImSelC, slot]
      have accept : stAccept state inputs =
          (inputs.lbStValidIh && !state.ff.sramFullOh) := by
        simp [stAccept, SramArb.lbStReadyOh, SramArb.arbAvStSelC, slot]
      rw [noIssue, accept]
      simp only [SramArb.request, slot, arbInputs, strobed_false, List.nil_append,
        Bool.toNat_false, Nat.add_zero]
      cases taken : (inputs.lbStValidIh && !state.ff.sramFullOh) with
      | false => simp
      | true =>
          have notFull : state.ff.sramFullOh = false := by
            simp only [Bool.and_eq_true, Bool.not_eq_true'] at taken
            exact taken.2
          have room : writes ≠ reads + 2 ^ 18 := by
            have flag := counts.full
            rw [notFull] at flag
            exact of_decide_eq_false flag.symm
          have position : BitVec.ofNat 18 writes =
              BitVec.ofNat 18 (reads + (writes - reads)) := by
            rw [Nat.add_sub_cancel' lower]
          have size : writes + 1 - reads = writes - reads + 1 := by omega
          rw [counts.wrAddr, position, strobed_true, Bool.toNat_true, size]
          exact window_push _ _ _ _ (by omega)
  | im =>
      have noAccept : stAccept state inputs = false := by
        simp [stAccept, SramArb.lbStReadyOh, SramArb.arbAvStSelC, slot]
      have issue : imIssue state inputs =
          (inputs.imRdReqIh && !state.ff.sramEmptyOh) := by
        simp [imIssue, SramArb.arbImSelC, slot]
      rw [noAccept, issue]
      simp only [SramArb.request, slot, arbInputs, store_false, strobed_false,
        List.append_nil, Bool.toNat_false, Nat.add_zero]
      cases taken : (inputs.imRdReqIh && !state.ff.sramEmptyOh) with
      | false => simp
      | true =>
          have notEmpty : state.ff.sramEmptyOh = false := by
            simp only [Bool.and_eq_true, Bool.not_eq_true'] at taken
            exact taken.2
          have some : writes ≠ reads := by
            have flag := counts.empty
            rw [notEmpty] at flag
            exact of_decide_eq_false flag.symm
          have size : writes - reads = writes - (reads + 1) + 1 := by omega
          rw [counts.rdAddr, strobed_true, Bool.toNat_true, size, window_pop]
          rfl
  | avMm1 => exact stored_host counts inputs clear (Or.inl slot)
  | avMm2 => exact stored_host counts inputs clear (Or.inr slot)

/-- The words that the path holds, oldest first. -/
def held (state : State) : List (BitVec 16) :=
  inFlight state ++ window (scheduled state) state.ff.sramRdPtrF.toNat (occupancy state)

theorem held_eq {state : State} {writes reads : Nat}
    (counts : SramFfCntrlr.Counts state.ff writes reads) :
    held state = inFlight state ++ window (scheduled state) reads (writes - reads) := by
  unfold held window
  rw [occupancy_eq counts]
  congr 2
  funext offset
  congr 1
  rw [counts.rdPtr]
  apply BitVec.eq_of_toNat_eq
  simp only [BitVec.toNat_ofNat]
  omega

theorem held_step {state : State} {writes reads : Nat} (wired : Wired state)
    (counts : SramFfCntrlr.Counts state.ff writes reads) (inputs : Inputs)
    (clear : HostClear state inputs) :
    strobed state.arb.imRdValidOh (sramRdDataId state) ++ held (step state inputs) =
      held state ++ strobed (stAccept state inputs) inputs.lbStDataId := by
  have nextCounts := SramFfCntrlr.step_counts (by decide : 0 < 18) counts
    (ffInputs state inputs)
  rw [incWrAddrC_eq_stAccept, incRdAddrC_eq_imIssue] at nextCounts
  have moved := inFlight_step wired inputs
  have stored := stored_step wired counts inputs clear
  rw [held_eq counts, @held_eq (step state inputs) _ _ nextCounts, ← List.append_assoc, moved,
    List.append_assoc, stored, List.append_assoc]

/-- Conservation: presented, in-flight and stored words are the accepted ones. -/
structure Carries (state : State) (accepted presented : List (BitVec 16)) : Prop where
  wired : Wired state
  conserved : ∃ reads,
    SramFfCntrlr.Counts state.ff accepted.length reads ∧
    presented ++ (inFlight state ++
      window (scheduled state) reads (accepted.length - reads)) = accepted

theorem reset_carries (contents : BitVec 18 → BitVec 16) :
    Carries (reset contents) [] [] :=
  { wired := reset_wired contents
    conserved := ⟨0, SramFfCntrlr.reset_counts, rfl⟩ }

theorem step_carries {state : State} {accepted presented : List (BitVec 16)}
    (carries : Carries state accepted presented) (inputs : Inputs)
    (clear : HostClear state inputs) :
    Carries (step state inputs)
      (accepted ++ strobed (stAccept state inputs) inputs.lbStDataId)
      (presented ++ strobed state.arb.imRdValidOh (sramRdDataId state)) := by
  obtain ⟨reads, counts, conserved⟩ := carries.conserved
  have wired := carries.wired
  have length :
      (accepted ++ strobed (stAccept state inputs) inputs.lbStDataId).length =
        accepted.length + (stAccept state inputs).toNat := by
    cases stAccept state inputs <;> simp
  have nextCounts := SramFfCntrlr.step_counts (by decide : 0 < 18) counts
    (ffInputs state inputs)
  rw [incWrAddrC_eq_stAccept, incRdAddrC_eq_imIssue, ← length] at nextCounts
  refine
    { wired := step_wired wired inputs
      conserved := ⟨reads + (imIssue state inputs).toNat, nextCounts, ?_⟩ }
  have moved := inFlight_step wired inputs
  have stored := stored_step wired counts inputs clear
  rw [length]
  calc
    presented ++ strobed state.arb.imRdValidOh (sramRdDataId state) ++
          (inFlight (step state inputs) ++
            window (scheduled (step state inputs))
              (reads + (imIssue state inputs).toNat)
              (accepted.length + (stAccept state inputs).toNat -
                (reads + (imIssue state inputs).toNat)))
        = presented ++ ((strobed state.arb.imRdValidOh (sramRdDataId state) ++
            inFlight (step state inputs)) ++
            window (scheduled (step state inputs))
              (reads + (imIssue state inputs).toNat)
              (accepted.length + (stAccept state inputs).toNat -
                (reads + (imIssue state inputs).toNat))) := by
          simp only [List.append_assoc]
    _ = presented ++ (inFlight state ++
          (window (scheduled state) reads (accepted.length - reads) ++
            strobed (stAccept state inputs) inputs.lbStDataId)) := by
          rw [moved, List.append_assoc, stored]
    _ = accepted ++ strobed (stAccept state inputs) inputs.lbStDataId := by
          have extended := congrArg
            (fun words => words ++ strobed (stAccept state inputs) inputs.lbStDataId)
            conserved
          simpa only [List.append_assoc] using extended

/-! ### Whole runs -/

section Runs

variable (contents : BitVec 18 → BitVec 16) (inputs : Nat → Inputs)

def stateAt (t : Nat) : State := run step (reset contents) inputs t

def accepted : Nat → List (BitVec 16) :=
  collect fun t =>
    strobed (stAccept (stateAt contents inputs t) (inputs t)) (inputs t).lbStDataId

def presented : Nat → List (BitVec 16) :=
  collect fun t =>
    strobed (stateAt contents inputs t).arb.imRdValidOh
      (sramRdDataId (stateAt contents inputs t))

/-- The memory as its clients see it: one write for each accepted word, at the
write pointer, and one for each granted host write, in the order of the grants. -/
def clientMemory : Nat → BitVec 18 → BitVec 16
  | 0 => contents
  | t + 1 =>
      let state := stateAt contents inputs t
      store
        (store (clientMemory t) (stAccept state (inputs t))
          (SramFfCntrlr.sramWrAddrOd state.ff) (inputs t).lbStDataId)
        (mmWrite state (inputs t)) (inputs t).lbMmAddrId (inputs t).lbMmWrDataId

end Runs

theorem run_carries (contents : BitVec 18 → BitVec 16) (inputs : Nat → Inputs)
    (clear : ∀ t, HostClear (stateAt contents inputs t) (inputs t)) (t : Nat) :
    Carries (stateAt contents inputs t) (accepted contents inputs t)
      (presented contents inputs t) := by
  induction t with
  | zero => exact reset_carries contents
  | succ t ih => exact step_carries ih (inputs t) (clear t)

theorem run_wired (contents : BitVec 18 → BitVec 16) (inputs : Nat → Inputs)
    (t : Nat) : Wired (stateAt contents inputs t) := by
  induction t with
  | zero => exact reset_wired contents
  | succ t ih => exact step_wired ih (inputs t)

theorem store_request (state : State) (inputs : Inputs)
    (memory : BitVec 18 → BitVec 16) :
    store memory (SramArb.request state.arb (arbInputs state inputs)).wrEn
        (SramArb.request state.arb (arbInputs state inputs)).addr
        (SramArb.request state.arb (arbInputs state inputs)).wrData =
      store
        (store memory (stAccept state inputs)
          (SramFfCntrlr.sramWrAddrOd state.ff) inputs.lbStDataId)
        (mmWrite state inputs) inputs.lbMmAddrId inputs.lbMmWrDataId := by
  cases slot : state.arb.arbSelF <;>
    simp [SramArb.request, arbInputs, stAccept, mmWrite, SramArb.lbStReadyOh,
      SramArb.arbAvStSelC, SramArb.lbMmArbGrantOh, SramArb.arbAvMmSel1C,
      SramArb.arbAvMmSel2C, slot]

theorem scheduled_eq_clientMemory (contents : BitVec 18 → BitVec 16)
    (inputs : Nat → Inputs) (t : Nat) :
    scheduled (stateAt contents inputs t) = clientMemory contents inputs t := by
  induction t with
  | zero =>
      simp [stateAt, scheduled, landed, reset, SramArb.reset, SramDrvr.reset,
        SramDrvr.sram, clientMemory]
  | succ t ih =>
      change scheduled (step (stateAt contents inputs t) (inputs t)) = _
      rw [scheduled_step (run_wired contents inputs t), store_request, ih]
      rfl

/-- A read registered by the arbiter returns, two edges later, the word its
clients see at that address. -/
theorem readdata_of_request (contents : BitVec 18 → BitVec 16)
    (inputs : Nat → Inputs) (t : Nat)
    (reading : (stateAt contents inputs t).arb.sramRdEnOh = true) :
    sramRdDataId (stateAt contents inputs (t + 2)) =
      clientMemory contents inputs t (stateAt contents inputs t).arb.sramAddrOd := by
  have wired := run_wired contents inputs (t + 1)
  have driven : (stateAt contents inputs (t + 1)).drvr.sramOeN = false := by
    change (step (stateAt contents inputs t) (inputs t)).drvr.sramOeN = false
    simp [step, SramDrvr.step, drvrInputs, reading]
  change sramRdDataId (step (stateAt contents inputs (t + 1)) (inputs (t + 1))) = _
  rw [readdata_step wired _ driven]
  change landed (step (stateAt contents inputs t) (inputs t)) _ = _
  rw [landed_step (run_wired contents inputs t), scheduled_eq_clientMemory]
  rfl

theorem mmRead_request {state : State} {inputs : Inputs}
    (reading : mmRead state inputs = true) :
    (step state inputs).arb.sramRdEnOh = true ∧
      (step state inputs).arb.sramAddrOd = inputs.lbMmAddrId := by
  simp only [mmRead, SramArb.lbMmArbGrantOh, SramArb.arbAvMmSel1C,
    SramArb.arbAvMmSel2C, Bool.and_eq_true] at reading
  cases slot : state.arb.arbSelF <;>
    simp_all [step, SramArb.step, SramArb.request, arbInputs]

theorem lbMmRdValid_origin (contents : BitVec 18 → BitVec 16)
    (inputs : Nat → Inputs) (t : Nat)
    (valid : (stateAt contents inputs t).arb.lbMmRdValidOd = true) :
    ∃ grant, t = grant + 3 ∧
      mmRead (stateAt contents inputs grant) (inputs grant) = true := by
  match t with
  | 0 => simp [stateAt, reset, SramArb.reset] at valid
  | 1 => simp [stateAt, run, reset, SramArb.reset, step, SramArb.step] at valid
  | 2 => simp [stateAt, run, reset, SramArb.reset, step, SramArb.step] at valid
  | grant + 3 => exact ⟨grant, rfl, valid⟩

/-- The SRAM path is a lossless in-order queue for streamed words, and the
memory-mapped port only ever answers with the word at its own address. -/
theorem sramPath_lossless (contents : BitVec 18 → BitVec 16)
    (inputs : Nat → Inputs)
    (clear : ∀ t, HostClear (stateAt contents inputs t) (inputs t)) (t : Nat) :
    presented contents inputs (t + 1) <+: accepted contents inputs t ∧
    (presented contents inputs t).length +
        (inFlight (stateAt contents inputs t)).length +
        occupancy (stateAt contents inputs t) =
      (accepted contents inputs t).length ∧
    ((stateAt contents inputs t).arb.lbMmRdValidOd = true →
      ∃ grant, t = grant + 3 ∧
        mmRead (stateAt contents inputs grant) (inputs grant) = true ∧
        sramRdDataId (stateAt contents inputs t) =
          clientMemory contents inputs (grant + 1) (inputs grant).lbMmAddrId) := by
  have carries := run_carries contents inputs clear t
  obtain ⟨reads, counts, conserved⟩ := carries.conserved
  refine ⟨?_, ?_, ?_⟩
  · rw [inFlight, List.append_assoc, ← List.append_assoc] at conserved
    exact ⟨_, conserved⟩
  · have sizes := congrArg List.length conserved
    rw [List.length_append, List.length_append, window_length] at sizes
    rw [occupancy_eq counts]
    omega
  · intro valid
    obtain ⟨grant, late, reading⟩ := lbMmRdValid_origin contents inputs t valid
    obtain ⟨enabled, address⟩ := mmRead_request reading
    refine ⟨grant, late, reading, ?_⟩
    have returned := readdata_of_request contents inputs (grant + 1) enabled
    rw [late]
    have registered :
        (stateAt contents inputs (grant + 1)).arb.sramAddrOd =
          (inputs grant).lbMmAddrId := address
    rw [registered] at returned
    exact returned

/-- A stream with a host write in the first memory-mapped slot and a host read
of the same address in the second. -/
def hostInputs : Nat → Inputs := fun t =>
  { lbStDataId := BitVec.ofNat 16 t
    lbStValidIh := true
    lbMmRdEnIh := t == 33
    lbMmWrEnIh := t == 16
    lbMmAddrId := 256
    lbMmWrDataId := 48879
    imRdReqIh := true }

theorem hostInputs_clear (t : Nat) :
    HostClear (stateAt (fun _ => 0) hostInputs t) (hostInputs t) := by
  intro writing
  by_cases granted : t = 16
  · subst granted
    rintro ⟨offset, inside, same⟩
    revert offset
    decide +kernel
  · simp [mmWrite, hostInputs, granted] at writing

theorem sramPath_lossless_host :
    (∀ t, HostClear (stateAt (fun _ => 0) hostInputs t) (hostInputs t)) ∧
    presented (fun _ => 0) hostInputs (36 + 1) <+:
      accepted (fun _ => 0) hostInputs 36 :=
  ⟨hostInputs_clear, (sramPath_lossless (fun _ => 0) hostInputs hostInputs_clear 36).1⟩

end Synesthesia.SramPath
