/-
What the samples of `wav_prsr` depend on.

Two runs see the same valid words and differ only in what is on the data bus in
the gaps between them, as when the host reads the shared SRAM.  All control
registers agree throughout.  The half-word registers of the 32-bit formats do
not: they shift in every clock of the PCM chunk, so the value in the clock just
before a second half becomes the first half of the sample.
-/

import Synesthesia.AudioCortex.WavDecode

namespace Synesthesia.WavPrsr

open Synesthesia.Rtl

/-- The inputs of a cycle without the word of a gap. -/
def blankGap (inputs : Inputs) : Inputs :=
  { inputs with
    sramRdDataId := if inputs.sramRdDataValidIh then inputs.sramRdDataId else 0 }

/-- The registers without the assembled samples. -/
def control (regs : Regs) : Regs :=
  { regs with
    pcmFfLdataOd := 0
    pcmFfRdataOd := 0 }

theorem nextPcm_control {first second : Pcm} (tggl : first.tggl = second.tggl)
    (chunk : Chunk) (numChnnlsF bpsF valid : Bool) (word other : BitVec 16) :
    (nextPcm first chunk numChnnlsF bpsF valid word).wrEn =
        (nextPcm second chunk numChnnlsF bpsF valid other).wrEn ∧
      (nextPcm first chunk numChnnlsF bpsF valid word).tggl =
        (nextPcm second chunk numChnnlsF bpsF valid other).tggl := by
  unfold nextPcm
  split
  · cases numChnnlsF <;> cases bpsF <;> simp [tggl]
  · exact ⟨rfl, tggl⟩

theorem hdrRam_gap (regs : Regs) {inputs : Inputs}
    (gap : inputs.sramRdDataValidIh = false) :
    DualPortRam.step regs.wavHdrRam (hdrRamPorts regs inputs) =
      DualPortRam.step (control regs).wavHdrRam
        (hdrRamPorts (control regs) (blankGap inputs)) := by
  simp [DualPortRam.step, hdrRamPorts, hdrRamWrEnC, gap, store_false, control, blankGap]

/-- The control registers see neither the samples nor the words of gaps. -/
theorem control_step (regs : Regs) (inputs : Inputs) :
    control (step regs inputs) = control (step (control regs) (blankGap inputs)) := by
  obtain ⟨wrEn, tggl⟩ := nextPcm_control
    (show regs.pcm.tggl = (control regs).pcm.tggl from rfl) regs.chunk regs.numChnnlsF regs.bpsF
      inputs.sramRdDataValidIh
    inputs.sramRdDataId (blankGap inputs).sramRdDataId
  cases valid : inputs.sramRdDataValidIh with
  | true =>
      have same : blankGap inputs = inputs := by simp only [blankGap, if_pos valid]
      rw [same] at wrEn tggl ⊢
      simp only [control, step, Regs.mk.injEq, true_and]
      exact ⟨rfl, rfl, rfl, rfl, rfl, rfl, rfl, rfl, wrEn, tggl, rfl⟩
  | false =>
      have gap : (blankGap inputs).sramRdDataValidIh = false := valid
      rw [valid] at wrEn tggl
      simp only [control, step, Regs.mk.injEq, true_and, valid, gap,
        endOfFileC_gap, chunkEndC_gap, nextPcmDataSize_gap, nextFmtChnkEndPtr_gap,
        nextNumChnnls_gap, nextBps_gap, nextLastWord_gap, nextWordCntr_gap]
      exact ⟨rfl, rfl, rfl, rfl, rfl, rfl, rfl, wrEn, tggl, hdrRam_gap regs valid⟩

theorem control_agree {first second : Regs} {input other : Inputs}
    (agree : control first = control second) (cycle : blankGap input = blankGap other) :
    control (step first input) = control (step second other) := by
  rw [control_step first, control_step second, agree, cycle]

/-! ### Assembly registers of two runs -/

/-- The half that a shift will move up agrees, unless it came from a gap in
which the buses did not. -/
def LowAgree (first second : BitVec 32) (bus other : BitVec 16) : Prop :=
  first.extractLsb' 0 16 = second.extractLsb' 0 16 ∨
    (first.extractLsb' 0 16 = bus ∧ second.extractLsb' 0 16 = other)

/-- Agreement of the assembly registers in the PCM chunk, with `bus` and `other`
on the two data buses in the clock before. -/
def PcmAgree (numChnnlsF bpsF : Bool) (first second : Pcm) (bus other : BitVec 16) :
    Prop :=
  match numChnnlsF, bpsF with
  | false, false => True
  | false, true => LowAgree first.ldata second.ldata bus other
  | true, false =>
      (first.tggl.getLsbD 0 = true → first.ldata = second.ldata) ∧
      (first.tggl.getLsbD 0 = false → first.rdata = second.rdata)
  | true, true =>
      (first.tggl.getLsbD 1 = false →
        LowAgree first.ldata second.ldata bus other ∧ first.rdata = second.rdata) ∧
      (first.tggl.getLsbD 1 = true →
        first.ldata = second.ldata ∧ LowAgree first.rdata second.rdata bus other)

def SamplesAgree (first second : Pcm) : Prop :=
  first.ldata = second.ldata ∧ first.rdata = second.rdata

theorem LowAgree.of_eq {first second : BitVec 32} (same : first = second)
    (bus other : BitVec 16) : LowAgree first second bus other := by
  exact .inl (by rw [same])

theorem LowAgree.of_shiftIn (first second : BitVec 32) (word other : BitVec 16) :
    LowAgree (shiftIn first word) (shiftIn second other) word other := by
  exact .inr ⟨shiftIn_low first word, shiftIn_low second other⟩

theorem LowAgree.shiftIn {first second : BitVec 32} {bus : BitVec 16}
    (low : LowAgree first second bus bus) (word : BitVec 16) :
    WavPrsr.shiftIn first word = WavPrsr.shiftIn second word := by
  unfold WavPrsr.shiftIn
  rcases low with same | ⟨left, right⟩
  · rw [same]
  · rw [left, right]

theorem pcmAgree_of_samples {first second : Pcm} (samples : SamplesAgree first second)
    (numChnnlsF bpsF : Bool) (bus other : BitVec 16) :
    PcmAgree numChnnlsF bpsF first second bus other := by
  obtain ⟨left, right⟩ := samples
  cases numChnnlsF <;> cases bpsF <;>
    simp [PcmAgree, left, right, LowAgree.of_eq]

/-- A gap leaves every half that is still needed in step, or traces it to the
two buses. -/
theorem pcmAgree_gap {first second : Pcm} {bus other : BitVec 16}
    (tggl : first.tggl = second.tggl) (numChnnlsF bpsF : Bool) (word garbage : BitVec 16)
    (agree : PcmAgree numChnnlsF bpsF first second bus other) :
    PcmAgree numChnnlsF bpsF
      (nextPcm first .pcmData numChnnlsF bpsF false word)
      (nextPcm second .pcmData numChnnlsF bpsF false garbage) word garbage := by
  cases numChnnlsF <;> cases bpsF
  case false.false => trivial
  case false.true => exact LowAgree.of_shiftIn _ _ _ _
  case true.false =>
    obtain ⟨left, right⟩ := agree
    cases bit : first.tggl.getLsbD 0 <;>
      simp_all [PcmAgree, nextPcm]
  case true.true =>
    obtain ⟨left, right⟩ := agree
    cases bit : first.tggl.getLsbD 1 <;>
      simp_all [PcmAgree, nextPcm, LowAgree.of_shiftIn]

theorem samplesAgree_word {first second : Pcm} {bus other : BitVec 16}
    (tggl : first.tggl = second.tggl) (numChnnlsF bpsF : Bool) (word : BitVec 16)
    (agree : PcmAgree numChnnlsF bpsF first second bus other)
    (joined : bpsF = true → bus = other) :
    SamplesAgree (nextPcm first .pcmData numChnnlsF bpsF true word)
      (nextPcm second .pcmData numChnnlsF bpsF true word) := by
  cases numChnnlsF <;> cases bpsF
  case false.false => exact ⟨rfl, rfl⟩
  case false.true =>
    obtain rfl := joined rfl
    exact ⟨LowAgree.shiftIn agree word, rfl⟩
  case true.false =>
    obtain ⟨left, right⟩ := agree
    cases bit : first.tggl.getLsbD 0 <;>
      simp_all [SamplesAgree, nextPcm]
  case true.true =>
    obtain rfl := joined rfl
    obtain ⟨left, right⟩ := agree
    cases bit : first.tggl.getLsbD 1 with
    | false =>
        obtain ⟨low, same⟩ := left bit
        rw [tggl] at bit
        simp only [SamplesAgree, nextPcm, reduceIte, tggl, bit, same, low.shiftIn word,
          Bool.not_false, Bool.false_eq_true, and_self]
    | true =>
        obtain ⟨same, low⟩ := right bit
        rw [tggl] at bit
        simp only [SamplesAgree, nextPcm, reduceIte, tggl, bit, same, low.shiftIn word,
          Bool.not_true, Bool.false_eq_true, and_self]

theorem pcmAgree_firstHalf {first second : Pcm} {bus other : BitVec 16}
    (tggl : first.tggl = second.tggl) (half : first.tggl.getLsbD 0 = false)
    (numChnnlsF : Bool) (word : BitVec 16)
    (agree : PcmAgree numChnnlsF true first second bus other) :
    PcmAgree numChnnlsF true (nextPcm first .pcmData numChnnlsF true true word)
      (nextPcm second .pcmData numChnnlsF true true word) word word := by
  have phases : ∀ phase : BitVec 2, phase.getLsbD 0 = false →
      (phase + BitVec.ofNat 2 true.toNat).getLsbD 1 = phase.getLsbD 1 := by decide
  cases numChnnlsF
  case false => exact LowAgree.of_shiftIn _ _ _ _
  case true =>
    obtain ⟨left, right⟩ := agree
    have after : (nextPcm first .pcmData true true true word).tggl.getLsbD 1 =
        first.tggl.getLsbD 1 := phases _ half
    unfold PcmAgree
    simp only [after]
    cases bit : first.tggl.getLsbD 1 <;> rw [tggl] at bit <;>
      simp_all [nextPcm, LowAgree.of_shiftIn]

theorem wrEn_secondHalf {pcm : Pcm} {numChnnlsF : Bool} {word : BitVec 16}
    (half : pcm.tggl.getLsbD 0 = false) (valid : Bool) :
    (nextPcm pcm .pcmData numChnnlsF true valid word).wrEn = false := by
  have phases : ∀ phase : BitVec 2, phase.getLsbD 0 = false → (phase == 3) = false := by
    decide
  cases numChnnlsF <;> simp only [nextPcm, reduceIte, half, phases _ half, Bool.and_false]

/-! ### Two runs -/

/-- The PCM registers of two runs in one cycle, with `bus` and `other` on the
data buses in the cycle before. -/
structure RunsAgree (first second : Regs) (bus other : BitVec 16) : Prop where
  control : control first = control second
  field : first.chunk = .pcmData → first.field = .id
  header : first.chunk ≠ .pcmData → SamplesAgree first.pcm second.pcm
  pcm : first.chunk = .pcmData →
    PcmAgree first.numChnnlsF first.bpsF first.pcm second.pcm bus other
  written : first.pcm.written = second.pcm.written

/-- The clock before a second half, or before the end of the file, is one in
which the two buses must agree. -/
def Joins (regs : Regs) (inputs : Inputs) : Prop :=
  regs.chunk = .pcmData ∧ regs.bpsF = true ∧ inputs.sramRdDataValidIh = true ∧
    (regs.tgglF.getLsbD 0 = true ∨ regs.lastWordF = true)

theorem field_of_pcm (regs : Regs) (inputs : Inputs)
    (data : (step regs inputs).chunk = .pcmData) : (step regs inputs).field = .id := by
  have restarted : rstFieldC regs.chunk (activateC regs inputs.sramEmptyIh)
      (chunkEndC regs.chunk regs.wordCntrF regs.fmtChnkEndPtrF
        inputs.sramRdDataValidIh) = true := by
    simp only [step, nextChunk] at data
    cases chunk : regs.chunk <;> rw [chunk] at data <;> grind [rstFieldC]
  simp only [step, nextField, restarted, reduceIte]

section Runs

variable {first second : Regs} {bus other : BitVec 16} {input input' : Inputs}

/-- In the PCM chunk the format registers stand still. -/
theorem format_held (field : first.field = .id) :
    (step first input).numChnnlsF = first.numChnnlsF ∧
      (step first input).bpsF = first.bpsF := by
  simp [step, nextNumChnnls, nextBps, field]

theorem RunsAgree.pcm_second (agree : RunsAgree first second bus other) :
    (step second input').pcm = nextPcm second.pcm first.chunk first.numChnnlsF first.bpsF
      input'.sramRdDataValidIh input'.sramRdDataId := by
  have chunk : first.chunk = second.chunk := (congrArg Regs.chunk agree.control :)
  have channels : first.numChnnlsF = second.numChnnlsF :=
    (congrArg Regs.numChnnlsF agree.control :)
  have bits : first.bpsF = second.bpsF := (congrArg Regs.bpsF agree.control :)
  rw [step_pcm, chunk, channels, bits]

theorem RunsAgree.tggl (agree : RunsAgree first second bus other) :
    first.pcm.tggl = second.pcm.tggl := (congrArg Regs.tgglF agree.control :)

theorem written_congr {pcm pcm' : Pcm} (wrEn : pcm.wrEn = pcm'.wrEn)
    (samples : SamplesAgree pcm pcm') : pcm.written = pcm'.written := by
  rw [Pcm.written, Pcm.written, wrEn, samples.1, samples.2]

theorem runsAgree_of_samples (agree : RunsAgree first second bus other)
    (cycle : blankGap input = blankGap input')
    (samples : SamplesAgree (step first input).pcm (step second input').pcm) :
    RunsAgree (step first input) (step second input') input.sramRdDataId
      input'.sramRdDataId where
  control := control_agree agree.control cycle
  field := field_of_pcm first input
  header := fun _ => samples
  pcm := fun _ => pcmAgree_of_samples samples _ _ _ _
  written := written_congr
    (congrArg Regs.pcmFfWrEnOh (control_agree agree.control cycle) :) samples

/-- After a cycle that stays in the PCM chunk and writes nothing, only the
pending halves matter. -/
theorem runsAgree_of_pending (agree : RunsAgree first second bus other)
    (cycle : blankGap input = blankGap input') (data : first.chunk = .pcmData)
    (stays : (step first input).chunk = .pcmData)
    (silent : (step first input).pcm.wrEn = false)
    (pending : PcmAgree first.numChnnlsF first.bpsF (step first input).pcm
      (step second input').pcm input.sramRdDataId input'.sramRdDataId) :
    RunsAgree (step first input) (step second input') input.sramRdDataId
      input'.sramRdDataId where
  control := control_agree agree.control cycle
  field := field_of_pcm first input
  header := fun left => absurd stays left
  pcm := by
    intro _
    obtain ⟨channels, bits⟩ : (step first input).numChnnlsF = first.numChnnlsF ∧
        (step first input).bpsF = first.bpsF := format_held (agree.field data)
    rw [channels, bits]
    exact pending
  written := by
    have wrEn : (step first input).pcm.wrEn = (step second input').pcm.wrEn :=
      (congrArg Regs.pcmFfWrEnOh (control_agree agree.control cycle) :)
    rw [Pcm.written, Pcm.written, ← wrEn, silent]
    rfl

theorem runsAgree_step (agree : RunsAgree first second bus other)
    (cycle : blankGap input = blankGap input') (joined : Joins first input → bus = other) :
    RunsAgree (step first input) (step second input') input.sramRdDataId
      input'.sramRdDataId := by
  have sameValid : input'.sramRdDataValidIh = input.sramRdDataValidIh :=
    (congrArg Inputs.sramRdDataValidIh cycle).symm
  have second_step : (step second input').pcm = _ := agree.pcm_second
  rw [sameValid] at second_step
  by_cases data : first.chunk = .pcmData
  · rw [data] at second_step
    have first_step := step_pcm first input
    rw [data] at first_step
    cases valid : input.sramRdDataValidIh with
    | false =>
        rw [valid] at first_step second_step
        apply runsAgree_of_pending agree cycle data
        · simp [step, valid, data]
        · rw [first_step]
          cases first.numChnnlsF <;> cases first.bpsF <;> rfl
        · rw [first_step, second_step]
          exact pcmAgree_gap agree.tggl _ _ _ _ (agree.pcm data)
    | true =>
        have sameWord : input'.sramRdDataId = input.sramRdDataId := by
          have words := congrArg Inputs.sramRdDataId cycle
          simp only [blankGap, sameValid, valid, reduceIte] at words
          exact words.symm
        rw [valid] at first_step second_step
        rw [sameWord] at second_step
        by_cases joins : first.bpsF = true ∧ first.pcm.tggl.getLsbD 0 = false ∧
            first.lastWordF = false
        · obtain ⟨wide, half, more⟩ := joins
          rw [wide] at first_step second_step
          apply runsAgree_of_pending agree cycle data
          · simp [step, valid, data, endOfFileC, more, chunkEndC]
          · rw [first_step]
            exact wrEn_secondHalf half true
          · rw [first_step, second_step, wide, sameWord]
            have pending := agree.pcm data
            rw [wide] at pending
            exact pcmAgree_firstHalf agree.tggl half _ _ pending
        · apply runsAgree_of_samples agree cycle
          rw [first_step, second_step]
          apply samplesAgree_word agree.tggl _ _ _ (agree.pcm data)
          intro wide
          apply joined
          refine ⟨data, wide, valid, ?_⟩
          by_contra neither
          apply joins
          rw [not_or, Bool.not_eq_true, Bool.not_eq_true] at neither
          exact ⟨wide, neither⟩
  · apply runsAgree_of_samples agree cycle
    rw [step_pcm, second_step, nextPcm_header _ data, nextPcm_header _ data]
    exact agree.header data

end Runs

def resetRun (header : BitVec 8 → BitVec 16) (inputs : Nat → Inputs) : Nat → Regs :=
  run step (reset header) inputs

def samples (header : BitVec 8 → BitVec 16) (inputs : Nat → Inputs) :
    Nat → List (BitVec 32 × BitVec 32) :=
  collect fun t => (resetRun header inputs t).pcm.written

theorem runsAgree_reset (header : BitVec 8 → BitVec 16) (bus other : BitVec 16) :
    RunsAgree (reset header) (reset header) bus other where
  control := rfl
  field := fun data => by cases data
  header := fun _ => ⟨rfl, rfl⟩
  pcm := fun data => by cases data
  written := rfl

/-- Two runs that differ only in the words of gaps write the same frames, if
their buses agree in every clock just before a word that joins two halves of a
sample or ends a file. -/
theorem samples_agree (header : BitVec 8 → BitVec 16) (inputs inputs' : Nat → Inputs)
    (cycles : ∀ t, blankGap (inputs t) = blankGap (inputs' t))
    (joined : ∀ t, Joins (resetRun header inputs (t + 1)) (inputs (t + 1)) →
      (inputs t).sramRdDataId = (inputs' t).sramRdDataId) :
    ∀ t, samples header inputs t = samples header inputs' t := by
  have agree : ∀ t, RunsAgree (resetRun header inputs t) (resetRun header inputs' t)
      (inputs (t - 1)).sramRdDataId (inputs' (t - 1)).sramRdDataId := by
    intro t
    induction t with
    | zero => exact runsAgree_reset header _ _
    | succ t ih =>
        apply runsAgree_step ih (cycles t)
        intro joins
        cases t with
        | zero => cases joins.1
        | succ t => exact joined t joins
  intro t
  induction t with
  | zero => rfl
  | succ t ih =>
      rw [samples, collect_succ, ← samples, ih, (agree t).written]
      rfl

/-! ### A disturbed bus -/

/-- The file is streamed with one gap, after `pause` words, in which `garbage`
is on the bus.  Cycle 0 enables the parser, and the first word is in cycle 2. -/
def pausedInputs (pause : Nat) (garbage : BitVec 16) (t : Nat) : Inputs :=
  { sramEmptyIh := false
    sramRdDataValidIh := decide (2 ≤ t ∧ t ≤ 26 ∧ t ≠ 2 + pause)
    sramRdDataId :=
      if t = 2 + pause then garbage
      else if t < 2 + pause then monoItem.rawWord (t - 2)
      else monoItem.rawWord (t - 3)
    lbRdEnIh := false
    lbWrEnIh := decide (t = 0)
    lbAddrId := 0
    lbWrDataId := 1
    pcmFfAfullIh := false
    hdrRamMixed := 0 }

theorem pausedInputs_cycles (pause : Nat) (garbage other : BitVec 16) (t : Nat) :
    blankGap (pausedInputs pause garbage t) = blankGap (pausedInputs pause other t) := by
  by_cases gap : t = 2 + pause <;> simp [blankGap, pausedInputs, gap]

/-- Garbage before the first half of the sample is shifted out again. -/
theorem samples_agree_paused :
    (pausedInputs 22 0 24).sramRdDataId ≠ (pausedInputs 22 0xdead 24).sramRdDataId ∧
      ∀ t, samples (fun _ => 0) (pausedInputs 22 0) t =
        samples (fun _ => 0) (pausedInputs 22 0xdead) t := by
  refine ⟨by decide, ?_⟩
  apply samples_agree _ _ _ (pausedInputs_cycles 22 0 0xdead)
  intro t joins
  by_cases gap : t = 24
  · subst gap
    have alone : (resetRun (fun _ => 0) (pausedInputs 22 0) 25).tgglF.getLsbD 0 = false ∧
        (resetRun (fun _ => 0) (pausedInputs 22 0) 25).lastWordF = false := by
      decide +kernel
    obtain ⟨-, -, -, second | last⟩ := joins
    · rw [alone.1] at second
      cases second
    · rw [alone.2] at last
      cases last
  · simp [pausedInputs, gap]

/-- Garbage between the halves becomes the upper half of the sample. -/
theorem paused_samples_differ :
    ¬ ∀ (header : BitVec 8 → BitVec 16) (inputs inputs' : Nat → Inputs),
        (∀ t, blankGap (inputs t) = blankGap (inputs' t)) →
          ∀ t, samples header inputs t = samples header inputs' t := by
  intro claim
  have same := claim (fun _ => 0) (pausedInputs 23 0) (pausedInputs 23 0xdead)
    (pausedInputs_cycles 23 0 0xdead) 28
  revert same
  decide +kernel

end Synesthesia.WavPrsr
