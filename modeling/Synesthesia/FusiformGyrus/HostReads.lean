/-
What the host reads has no influence on the results.

Two runs are compared in which the host writes the same words at the same times and the
PCM RAM answers alike.  The reads of the host, the acknowledge of the interrupt, the words
returned at colliding ports and the caches at power-up are arbitrary in both.  The timing
of the sequencer needs less: it agrees even while the host disturbs the RAMs.
-/

import Synesthesia.FusiformGyrus.FrameResults

namespace Synesthesia.Rtl

variable {Word Other : Type}

theorem strobe_of_strobed {strobe strobe' : Bool} {word word' : Word}
    (same : strobed strobe' word' = strobed strobe word) : strobe' = strobe := by
  cases strobe with
  | true =>
      cases strobe' with
      | true => rfl
      | false => cases same
  | false =>
      cases strobe' with
      | true => cases same
      | false => rfl

theorem strobed_of_collect {strobe strobe' : Nat → Bool} {word word' : Nat → Word} {t : Nat}
    (strobes : ∀ k, strobe' k = strobe k)
    (same : collect (fun k => strobed (strobe' k) (word' k)) t =
      collect (fun k => strobed (strobe k) (word k)) t) :
    ∀ k < t, strobed (strobe' k) (word' k) = strobed (strobe k) (word k) := by
  obtain rfl : strobe' = strobe := funext strobes
  intro k before
  cases strobe : strobe' k with
  | true => rw [(collect_strobed_eq_iff strobe' word' word t).mp same k before strobe]
  | false => rfl

end Synesthesia.Rtl

namespace Synesthesia.FgyrusTop

open Synesthesia.Rtl
open Synesthesia.FftEngine

/-- The host writes the same words at the same times. -/
structure SameWrites (inputs others : Nat → Inputs) : Prop where
  wrEn : ∀ t, (others t).lbWrEnIh = (inputs t).lbWrEnIh
  addr : ∀ t, (inputs t).lbWrEnIh = true → (others t).lbAddrId = (inputs t).lbAddrId
  wrData : ∀ t, (inputs t).lbWrEnIh = true → (others t).lbWrDataId = (inputs t).lbWrDataId

/-- Registers that follow the writes of the local bus. -/
structure SameWritten (lb other : FgyrusLb.State) : Prop where
  enable : other.fgyrusEnOh = lb.fgyrusEnOh
  postNorm : other.fgyrusPostNormOd = lb.fgyrusPostNormOd
  twiddle : other.lb2ram.twiddleRamWrEnOh = lb.lb2ram.twiddleRamWrEnOh
  cordic : other.lb2ram.cordicRamWrEnOh = lb.lb2ram.cordicRamWrEnOh
  addr : lb.lb2ram.twiddleRamWrEnOh = true ∨ lb.lb2ram.cordicRamWrEnOh = true →
    other.lb2ram.addrOd = lb.lb2ram.addrOd
  wrData : lb.lb2ram.twiddleRamWrEnOh = true ∨ lb.lb2ram.cordicRamWrEnOh = true →
    other.lb2ram.wrDataOd = lb.lb2ram.wrDataOd

theorem regWrite_of_not_wrEn {lbInputs : FgyrusLb.Inputs} (quiet : lbInputs.lbWrEnIh = false)
    (reg : BitVec 8) : FgyrusLb.regWrite reg lbInputs = false := by
  rw [FgyrusLb.regWrite, quiet, Bool.and_false, Bool.false_and]

theorem regWrite_eq {lbInputs others : FgyrusLb.Inputs}
    (wrEn : others.lbWrEnIh = lbInputs.lbWrEnIh) (addr : others.lbAddrId = lbInputs.lbAddrId)
    (reg : BitVec 8) : FgyrusLb.regWrite reg others = FgyrusLb.regWrite reg lbInputs := by
  rw [FgyrusLb.regWrite, FgyrusLb.regWrite, FgyrusLb.blockCode, FgyrusLb.blockCode,
    FgyrusLb.regAddr, FgyrusLb.regAddr, wrEn, addr]

theorem SameWritten.step {lb other : FgyrusLb.State} (same : SameWritten lb other)
    {lbInputs others : FgyrusLb.Inputs} (wrEn : others.lbWrEnIh = lbInputs.lbWrEnIh)
    (addr : lbInputs.lbWrEnIh = true → others.lbAddrId = lbInputs.lbAddrId)
    (wrData : lbInputs.lbWrEnIh = true → others.lbWrDataId = lbInputs.lbWrDataId) :
    SameWritten (FgyrusLb.step lb lbInputs) (FgyrusLb.step other others) := by
  cases write : lbInputs.lbWrEnIh with
  | true =>
      have addr := addr write
      have wrData := wrData write
      constructor
      · simp only [FgyrusLb.step, regWrite_eq wrEn addr, wrData, same.enable]
      · simp only [FgyrusLb.step, regWrite_eq wrEn addr, wrData, same.postNorm]
      · simp only [FgyrusLb.step, FgyrusLb.nextLb2Ram, FgyrusLb.blockCode, wrEn, addr]
      · simp only [FgyrusLb.step, FgyrusLb.nextLb2Ram, FgyrusLb.blockCode, wrEn, addr]
      · intro _
        simp only [FgyrusLb.step, FgyrusLb.nextLb2Ram, addr]
      · intro _
        simp only [FgyrusLb.step, FgyrusLb.nextLb2Ram, wrData]
  | false =>
      have quiet := wrEn.trans write
      have silent : ¬ ((FgyrusLb.step lb lbInputs).lb2ram.twiddleRamWrEnOh = true ∨
          (FgyrusLb.step lb lbInputs).lb2ram.cordicRamWrEnOh = true) := by
        simp only [FgyrusLb.step, FgyrusLb.nextLb2Ram, write, Bool.and_false, Bool.false_eq_true,
          or_self, not_false_eq_true]
      constructor
      · simp only [FgyrusLb.step, regWrite_of_not_wrEn write, regWrite_of_not_wrEn quiet,
          Bool.false_eq_true, reduceIte, same.enable]
      · simp only [FgyrusLb.step, regWrite_of_not_wrEn write, regWrite_of_not_wrEn quiet,
          Bool.false_eq_true, reduceIte, same.postNorm]
      · simp only [FgyrusLb.step, FgyrusLb.nextLb2Ram, write, quiet, Bool.and_false]
      · simp only [FgyrusLb.step, FgyrusLb.nextLb2Ram, write, quiet, Bool.and_false]
      · exact fun write => absurd write silent
      · exact fun write => absurd write silent

section Pair

variable {sampleRealIsZero3d sampleRealIsZero3d' : Bool}
  {real im real' im' twiddle twiddle' : BitVec 7 → BitVec 32}
  {cordic cordic' : BitVec 8 → BitVec 16} {inputs others : Nat → Inputs}

theorem SameWrites.written (writes : SameWrites inputs others) (t : Nat) :
    SameWritten (stateAt sampleRealIsZero3d real im twiddle cordic inputs t).lb
      (stateAt sampleRealIsZero3d' real' im' twiddle' cordic' others t).lb := by
  induction t with
  | zero => exact ⟨rfl, rfl, rfl, rfl, fun _ => rfl, fun _ => rfl⟩
  | succ t ih => exact ih.step (writes.wrEn t) (writes.addr t) (writes.wrData t)

theorem SameWrites.sameStarts (writes : SameWrites inputs others)
    (pcmRdy : ∀ t, (others t).pcmRdyIh = (inputs t).pcmRdyIh) :
    SameStarts (engineAt sampleRealIsZero3d real im twiddle cordic inputs)
      (engineAt sampleRealIsZero3d' real' im' twiddle' cordic' others)
      (engineInputsAt sampleRealIsZero3d real im twiddle cordic inputs)
      (engineInputsAt sampleRealIsZero3d' real' im' twiddle' cordic' others) :=
  { runs := engine_runs _ _ _ _ _ _
    otherRuns := engine_runs _ _ _ _ _ _
    ready := FgyrusFsm.stageReady_reset _
    otherReady := FgyrusFsm.stageReady_reset _
    clear := fun _ => rfl
    otherClear := fun _ => rfl
    idle := rfl
    otherIdle := rfl
    pcmRdy := pcmRdy
    enabled := fun t => (writes.written t).enable }

theorem SameWrites.twiddles (writes : SameWrites inputs others) (t : Nat) :
    (engineAt sampleRealIsZero3d' real' im' twiddle cordic' others t).twiddleRam.memory =
      (engineAt sampleRealIsZero3d real im twiddle cordic inputs t).twiddleRam.memory := by
  induction t with
  | zero => rfl
  | succ t ih =>
      have written : SameWritten (stateAt sampleRealIsZero3d real im twiddle cordic inputs t).lb
        (stateAt sampleRealIsZero3d' real' im' twiddle cordic' others t).lb := writes.written t
      exact store_congr ih written.twiddle fun write =>
        ⟨congrArg (BitVec.extractLsb' 0 7) (written.addr (.inl write)), written.wrData (.inl write)⟩

theorem SameWrites.cordics (writes : SameWrites inputs others) (t : Nat) :
    (stateAt sampleRealIsZero3d' real' im' twiddle' cordic others t).cordicRam.memory =
      (stateAt sampleRealIsZero3d real im twiddle cordic inputs t).cordicRam.memory := by
  induction t with
  | zero => rfl
  | succ t ih =>
      have written : SameWritten (stateAt sampleRealIsZero3d real im twiddle cordic inputs t).lb
        (stateAt sampleRealIsZero3d' real' im' twiddle' cordic others t).lb := writes.written t
      exact store_congr ih written.cordic fun write =>
        ⟨written.addr (.inr write),
          congrArg (BitVec.extractLsb' 0 16) (written.wrData (.inr write))⟩

/-- The samples a frame receives, whatever answers its addresses. -/
def received (inputs : Nat → Inputs) (start : Nat) (address : BitVec 7) : BitVec 32 :=
  (inputs (start + 1 + (address.reverse.toNat + 2))).pcmRamRdDataId

theorem received_pcm {start : Nat}
    (starts : Starts (engineAt sampleRealIsZero3d real im twiddle cordic inputs)
      (engineInputsAt sampleRealIsZero3d real im twiddle cordic inputs) start) :
    PcmRam
      (fun i => engineAt sampleRealIsZero3d real im twiddle cordic inputs (start + 1 + i))
      (fun i => engineInputsAt sampleRealIsZero3d real im twiddle cordic inputs (start + 1 + i))
      (received inputs start) := by
  intro i inside
  have address := ((timed starts).copying i (by rw [copyClocks]; omega)).cntr
  rw [FgyrusFsm.pcmRamRdAddrOd, FgyrusFsm.sampleCntrBitRevW, address, received,
    BitVec.reverse_reverse_eq, BitVec.toNat_ofNat, Nat.mod_eq_of_lt (by omega)]
  rfl

/-! ### Results -/

section Results

variable (writes : SameWrites inputs others)
  (pcmRdy : ∀ t, (others t).pcmRdyIh = (inputs t).pcmRdyIh)
  (pcmData : ∀ t, (others t).pcmRamRdDataId = (inputs t).pcmRamRdDataId)
  (undisturbed : Undisturbed sampleRealIsZero3d real im twiddle cordic inputs)
  (undisturbed' : Undisturbed sampleRealIsZero3d' real' im' twiddle cordic others)
  (nonzero : ∀ t address,
    (stateAt sampleRealIsZero3d real im twiddle cordic inputs t).cordicRam.memory address ≠ 0)

include writes

theorem SameWrites.frameResult_eq (start : Nat) (samples : BitVec 7 → BitVec 32) :
    frameResult sampleRealIsZero3d' real' im' twiddle cordic others start samples =
      frameResult sampleRealIsZero3d real im twiddle cordic inputs start samples := by
  funext i
  have tables : (engineAt sampleRealIsZero3d' real' im' twiddle cordic others
      (start + 1)).twiddleRam.memory =
        (engineAt sampleRealIsZero3d real im twiddle cordic inputs (start + 1)).twiddleRam.memory :=
    writes.twiddles (start + 1)
  rw [engineAt, engineAt] at tables
  rw [frameResult, frameResult, writes.cordics, (writes.written _).postNorm, tables]

include pcmData undisturbed undisturbed' nonzero

/-- Both runs write the same words in every frame. -/
theorem SameWrites.frameWrites {start : Nat}
    (starts : Starts (engineAt sampleRealIsZero3d real im twiddle cordic inputs)
      (engineInputsAt sampleRealIsZero3d real im twiddle cordic inputs) start)
    (starts' : Starts (engineAt sampleRealIsZero3d' real' im' twiddle cordic others)
      (engineInputsAt sampleRealIsZero3d' real' im' twiddle cordic others) start) :
    collect (fun i => resultWrite
        (engineAt sampleRealIsZero3d' real' im' twiddle cordic others (start + 1 + i)))
        (busyClocks + 1) =
      collect (fun i => resultWrite
        (engineAt sampleRealIsZero3d real im twiddle cordic inputs (start + 1 + i)))
        (busyClocks + 1) := by
  have samples : received others start = received inputs start := funext fun _ => pcmData _
  rw [undisturbed.resultWrites starts (received_pcm starts) (nonzero _),
    undisturbed'.resultWrites starts' (received_pcm starts') fun address => by
      rw [writes.cordics]
      exact nonzero _ address,
    samples, writes.frameResult_eq]

include pcmRdy

theorem SameWrites.resultWrite_eq (t : Nat) :
    resultWrite (engineAt sampleRealIsZero3d' real' im' twiddle cordic others t) =
      resultWrite (engineAt sampleRealIsZero3d real im twiddle cordic inputs t) := by
  have same : SameStarts (engineAt sampleRealIsZero3d real im twiddle cordic inputs)
      (engineAt sampleRealIsZero3d' real' im' twiddle cordic others) _ _ :=
    writes.sameStarts pcmRdy
  have strobes := fun t => strobe_of_strobed (same.resultAddress rfl rfl t)
  cases t with
  | zero => rfl
  | succ t =>
      by_cases idle :
          (engineAt sampleRealIsZero3d real im twiddle cordic inputs t).fsm.fsmPstate = .idle
      · obtain ⟨silent, silent'⟩ := same.silent idle
        rw [resultWrite, resultWrite, silent, silent']
        rfl
      · obtain ⟨start, i, starts, inside, rfl⟩ :=
          same.runs.frame_of_busy same.ready same.clear same.idle idle
        have starts' := same.starts_of (same.pstate start) starts
        exact strobed_of_collect (fun k => strobes (start + 1 + k))
          (writes.frameWrites pcmData undisturbed undisturbed' nonzero starts starts')
          (i + 1) (Nat.succ_lt_succ inside)

theorem SameWrites.resultRam_eq (contents : BitVec 7 → BitVec 32) (t : Nat) :
    resultRam contents (engineAt sampleRealIsZero3d' real' im' twiddle cordic others) t =
      resultRam contents (engineAt sampleRealIsZero3d real im twiddle cordic inputs) t := by
  induction t with
  | zero => rfl
  | succ t ih =>
      have write := writes.resultWrite_eq pcmRdy pcmData undisturbed undisturbed' nonzero t
      refine store_congr ih (strobe_of_strobed write) fun strobe => ?_
      rw [resultWrite, resultWrite, strobe_of_strobed write, strobe, strobed_true, strobed_true,
        List.singleton_inj, Prod.mk.injEq] at write
      exact write

end Results

end Pair

/-- The sequencer keeps its timing, and the result port its addresses, whatever the host
reads and whatever the RAMs hold. -/
theorem timing_ignores_data (sampleRealIsZero3d sampleRealIsZero3d' : Bool)
    (real im twiddle real' im' twiddle' : BitVec 7 → BitVec 32)
    (cordic cordic' : BitVec 8 → BitVec 16) (inputs others : Nat → Inputs)
    (writes : SameWrites inputs others)
    (pcmRdy : ∀ t, (others t).pcmRdyIh = (inputs t).pcmRdyIh) (t : Nat) :
    let engine := engineAt sampleRealIsZero3d real im twiddle cordic inputs
    let other := engineAt sampleRealIsZero3d' real' im' twiddle' cordic' others
    (other t).fsm.fsmPstate = (engine t).fsm.fsmPstate ∧
      resultAddress (other t) = resultAddress (engine t) :=
  have same := writes.sameStarts pcmRdy
  ⟨same.pstate t, same.resultAddress rfl rfl t⟩

theorem ramp_sameWrites (reads others : Nat → Bool) :
    SameWrites (rampInputs reads) (rampInputs others) :=
  { wrEn := fun _ => rfl
    addr := fun _ _ => rfl
    wrData := fun _ _ => rfl }

theorem timing_ignores_tables :
    (engineAt true (fun _ => 5) (fun _ => 5) (fun _ => 5) (fun _ => 0)
        (rampInputs fun _ => true) busyClocks).fsm.fsmPstate =
      (engineAt false (fun _ => 0) (fun _ => 0) (fun _ => 0) (fun _ => 1)
        (rampInputs fun _ => false) busyClocks).fsm.fsmPstate := by
  have same := timing_ignores_data false true (fun _ => 0) (fun _ => 0) (fun _ => 0) (fun _ => 5)
    (fun _ => 5) (fun _ => 5) (fun _ => 1) (fun _ => 0) (rampInputs fun _ => false)
    (rampInputs fun _ => true) (ramp_sameWrites _ _) (fun _ => rfl) busyClocks
  exact same.1

/-- While the host leaves the RAM windows and the post-normalisation alone during frames,
nothing it reads changes a result or the time at which it is written. -/
theorem results_ignore_reads (sampleRealIsZero3d sampleRealIsZero3d' : Bool)
    (real im real' im' twiddle : BitVec 7 → BitVec 32) (cordic : BitVec 8 → BitVec 16)
    (inputs others : Nat → Inputs) (writes : SameWrites inputs others)
    (pcmRdy : ∀ t, (others t).pcmRdyIh = (inputs t).pcmRdyIh)
    (pcmData : ∀ t, (others t).pcmRamRdDataId = (inputs t).pcmRamRdDataId)
    (undisturbed : Undisturbed sampleRealIsZero3d real im twiddle cordic inputs)
    (undisturbed' : Undisturbed sampleRealIsZero3d' real' im' twiddle cordic others)
    (nonzero : ∀ t address,
      (stateAt sampleRealIsZero3d real im twiddle cordic inputs t).cordicRam.memory address ≠ 0)
    (contents : BitVec 7 → BitVec 32) (t : Nat) :
    let engine := engineAt sampleRealIsZero3d real im twiddle cordic inputs
    let other := engineAt sampleRealIsZero3d' real' im' twiddle cordic others
    resultWrite (other t) = resultWrite (engine t) ∧
      resultRam contents other t = resultRam contents engine t :=
  ⟨writes.resultWrite_eq pcmRdy pcmData undisturbed undisturbed' nonzero t,
    writes.resultRam_eq pcmRdy pcmData undisturbed undisturbed' nonzero contents t⟩

theorem results_ignore_polling :
    resultRam (fun _ => 0)
        (engineAt false (fun _ => 0) (fun _ => 0) (fun _ => 0x01000000) (fun _ => 1)
          (rampInputs fun t => t % 3 == 0)) (2 * busyClocks) =
      resultRam (fun _ => 0)
        (engineAt false (fun _ => 0) (fun _ => 0) (fun _ => 0x01000000) (fun _ => 1)
          (rampInputs fun _ => false)) (2 * busyClocks) := by
  have same := results_ignore_reads false false (fun _ => 0) (fun _ => 0) (fun _ => 0) (fun _ => 0)
    (fun _ => 0x01000000) (fun _ => 1) (rampInputs fun _ => false) (rampInputs fun t => t % 3 == 0)
    (ramp_sameWrites _ _) (fun _ => rfl) (fun _ => rfl) (ramp_control _).undisturbed
    (ramp_control _).undisturbed ((ramp_control _).nonzero (by decide)) (fun _ => 0)
    (2 * busyClocks)
  exact same.2

end Synesthesia.FgyrusTop
