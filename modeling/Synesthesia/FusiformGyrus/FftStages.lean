/-
The seven butterfly stages, from the first clock in `FFT_S` to `CORDIC_S`.

Clock 0 is the first one in `FFT_S`.  Butterfly `n` owns the clocks from `7 * n`
on: its operands are read in clocks 3 and 4 of its own seven, and its results are
written in clocks 13 and 14, while the next butterfly has read its operands
already.
-/

import Synesthesia.FusiformGyrus.FftTrace

namespace Synesthesia.FftEngine

open Synesthesia.Rtl
open Synesthesia.FgyrusFsm (Clock Settled hot)
open Synesthesia.FftSchedule

/-- Clocks from the start of the stages to the CORDIC pass. -/
def stageClocks : Nat := 7 * wings + 8

/-- A trace that starts with the stages.  The wing is empty. -/
structure Paced (states : Nat → State) (inputs : Nat → Inputs) : Prop where
  runs : Runs states inputs
  clock : Clock 0 (states 0).fsm
  noRequest : (states 0).fsm.samplesRdyOh = false
  still : ∀ i < 6, (states i).wing.dataRdyOh = false

/-- Nothing is being written, and the local bus keeps away from the RAMs. -/
structure Stages (states : Nat → State) (inputs : Nat → Inputs) : Prop
    extends Paced states inputs where
  quiet : ∀ i, (states i).fsm.fsmPstate ≠ .idle → NoRamAccess (inputs i).lb2ram
  noRealWrite : (states 0).fsm.fftRamWrRealEnOh = false
  noImWrite : (states 0).fsm.fftRamWrImEnOh = false

section Stages

variable {states : Nat → State} {inputs : Nat → Inputs}

/-! ### When things happen -/

theorem Paced.clocks (paced : Paced states inputs) :
    ∀ i ≤ 7 * wings, Clock i (states i).fsm := by
  intro i
  induction i with
  | zero => exact fun _ => paced.clock
  | succ i ih =>
      intro inside
      rw [paced.runs.fsm i]
      exact FgyrusFsm.clock_step (ih (by omega)) (by omega) _

theorem Paced.request (paced : Paced states inputs) {i : Nat} (inside : i ≤ 7 * wings + 1) :
    (states i).fsm.samplesRdyOh = decide (i ≠ 0 ∧ i % 7 = 0) := by
  cases i with
  | zero => exact paced.noRequest
  | succ i =>
      have clock := paced.clocks i (by omega)
      rw [paced.runs.samplesRdy, if_pos clock.pstate, clock.bit, decide_eq_decide]
      omega

theorem Paced.dataRdy (paced : Paced states inputs) {i : Nat} (inside : i ≤ 7 * wings + 6) :
    (states i).wing.dataRdyOh = decide (12 ≤ i ∧ (i % 7 = 5 ∨ i % 7 = 6)) := by
  by_cases early : i < 6
  · rw [paced.still i early, Eq.comm, decide_eq_false_iff_not]
    omega
  · obtain ⟨late, rfl⟩ := Nat.exists_eq_add_of_le (Nat.le_of_not_lt early)
    rw [Nat.add_comm, paced.runs.dataRdy, paced.request (by omega), paced.request (by omega),
      ← Bool.decide_or, decide_eq_decide]
    omega

/-- The sequencer is still computing, or waits for a result. -/
structure Computing (i : Nat) (state : State) : Prop where
  pstate : state.fsm.fsmPstate = .fft ∨ state.fsm.fsmPstate = .fftWait
  phase : state.fsm.pstVecF = hot (i % 7)

theorem Computing.bit {i : Nat} {state : State} (computing : Computing i state) (k : Nat) :
    state.fsm.pstVecF.getLsbD k = decide (i % 7 = k) := by
  rw [computing.phase, FgyrusFsm.hot_getLsbD (Nat.mod_lt _ (by decide))]

theorem Computing.wrEn {i : Nat} {states : Nat → State} {inputs : Nat → Inputs}
    (runs : Runs states inputs) (computing : Computing i (states i)) :
    (states (i + 1)).fsm.fftRamWrRealEnOh = (states i).wing.dataRdyOh ∧
      (states (i + 1)).fsm.fftRamWrImEnOh = (states i).wing.dataRdyOh := by
  rw [runs.fsm i]
  rcases computing.pstate with fft | wait
  · simp only [FgyrusFsm.step, FgyrusFsm.nextFftRamWrRealEn, FgyrusFsm.nextFftRamWrImEn, fft,
      fsmInputs, and_self]
  · simp only [FgyrusFsm.step, FgyrusFsm.nextFftRamWrRealEn, FgyrusFsm.nextFftRamWrImEn, wait,
      fsmInputs, and_self]

theorem Computing.wrData {i : Nat} {states : Nat → State} {inputs : Nat → Inputs}
    (runs : Runs states inputs) (computing : Computing i (states i)) :
    (states (i + 1)).fsm.fftRamWrRealDataOd = (states i).wing.dataOd.real ∧
      (states (i + 1)).fsm.fftRamWrImDataOd = (states i).wing.dataOd.im := by
  rw [runs.fsm i]
  rcases computing.pstate with fft | wait
  · simp only [FgyrusFsm.step, FgyrusFsm.nextFftRamWrRealData, FgyrusFsm.nextFftRamWrImData, fft,
      fsmInputs, and_self]
  · simp only [FgyrusFsm.step, FgyrusFsm.nextFftRamWrRealData, FgyrusFsm.nextFftRamWrImData, wait,
      fsmInputs, and_self]

theorem Paced.fft_computing (paced : Paced states inputs) {i : Nat} (inside : i ≤ 7 * wings) :
    Computing i (states i) :=
  { pstate := .inl (paced.clocks i inside).pstate
    phase := (paced.clocks i inside).phase }

structure Waiting (i : Nat) (states : Nat → State) : Prop where
  pstate : (states (i + 1)).fsm.fsmPstate = .fftWait
  phase : (states (i + 1)).fsm.pstVecF = hot ((i + 1) % 7)
  wrEn : (states (i + 1)).fsm.fftRamWrRealEnOh = (states i).wing.dataRdyOh

theorem Waiting.computing {i : Nat} (waiting : Waiting i states) :
    Computing (i + 1) (states (i + 1)) :=
  { pstate := .inr waiting.pstate
    phase := waiting.phase }

theorem Waiting.lastWrite {i : Nat} (waiting : Waiting i states) (inputs : Nat → Inputs) :
    FgyrusFsm.lastWriteC (states (i + 1)).fsm (fsmInputs (states (i + 1)) (inputs (i + 1))) =
      ((states i).wing.dataRdyOh && !(states (i + 1)).wing.dataRdyOh) := by
  rw [FgyrusFsm.lastWriteC, waiting.wrEn]
  rfl

theorem Paced.notLast (paced : Paced states inputs) {k : Nat}
    (waiting : Waiting (7 * wings + k) states) (early : k < 6) :
    FgyrusFsm.lastWriteC (states (7 * wings + k + 1)).fsm
      (fsmInputs (states (7 * wings + k + 1)) (inputs (7 * wings + k + 1))) = false := by
  rw [waiting.lastWrite inputs, paced.dataRdy (by omega), paced.dataRdy (by omega)]
  simp only [Bool.and_eq_false_iff, decide_eq_false_iff_not, Bool.not_eq_false',
    decide_eq_true_eq]
  rw [wings]
  omega

theorem Paced.waiting (paced : Paced states inputs) :
    ∀ k < 7, Waiting (7 * wings + k) states := by
  intro k
  induction k with
  | zero =>
      intro _
      have clock := paced.clocks (7 * wings) (Nat.le_refl _)
      refine
        { pstate := ?_
          phase := ?_
          wrEn := (paced.fft_computing (Nat.le_refl _)).wrEn paced.runs |>.1 }
      · rw [Nat.add_zero, paced.runs.fsm]
        exact FgyrusFsm.clock_end clock _
      · rw [Nat.add_zero, paced.runs.fsm]
        simp only [FgyrusFsm.step, FgyrusFsm.nextPstVec, clock.pstate, clock.phase]
        exact FgyrusFsm.rotate_hot _ (by decide)
  | succ k ih =>
      intro inside
      have waiting := ih (by omega)
      have more := paced.notLast waiting (by omega)
      refine
        { pstate := ?_
          phase := ?_
          wrEn := (waiting.computing.wrEn paced.runs).1 }
      · rw [← Nat.add_assoc, paced.runs.fsm]
        simp only [FgyrusFsm.step, FgyrusFsm.nextPstate, waiting.pstate, more, reduceIte,
          Bool.false_eq_true]
      · rw [← Nat.add_assoc, paced.runs.fsm]
        simp only [FgyrusFsm.step, FgyrusFsm.nextPstVec, waiting.pstate, waiting.phase, more,
          reduceIte, Bool.false_eq_true]
        rw [FgyrusFsm.rotate_hot _ (Nat.mod_lt _ (by decide))]
        congr 1
        omega

theorem Paced.computing (paced : Paced states inputs) {i : Nat} (inside : i < stageClocks) :
    Computing i (states i) := by
  by_cases early : i ≤ 7 * wings
  · exact paced.fft_computing early
  · obtain ⟨k, rfl⟩ := Nat.exists_eq_add_of_le (Nat.succ_le_of_lt (Nat.lt_of_not_le early))
    have waiting := paced.waiting k (by rw [stageClocks] at inside; omega)
    rw [Nat.succ_add]
    exact waiting.computing

theorem Stages.access (stages : Stages states inputs) {i : Nat} (inside : i < stageClocks) :
    NoRamAccess (inputs i).lb2ram := by
  apply stages.quiet
  rcases (stages.computing inside).pstate with fft | wait
  · rw [fft]
    decide
  · rw [wait]
    decide

theorem Stages.wrAddr (stages : Stages states inputs) {i : Nat} (inside : i < 7 * wings + 7) :
    (states (i + 1)).fsm.fftRamWrAddrOd = FgyrusFsm.butterflyWrAddr (states i).fsm := by
  rw [stages.runs.fsm]
  by_cases early : i ≤ 7 * wings
  · simp only [FgyrusFsm.step, FgyrusFsm.nextFftRamWrAddr, (stages.clocks i early).pstate]
  · obtain ⟨k, rfl⟩ := Nat.exists_eq_add_of_le (Nat.succ_le_of_lt (Nat.lt_of_not_le early))
    rw [Nat.succ_add] at *
    have waiting := stages.waiting k (by omega)
    have more := stages.notLast waiting (by omega)
    simp only [FgyrusFsm.step, FgyrusFsm.nextFftRamWrAddr, waiting.pstate, more,
      Bool.false_eq_true, reduceIte]

theorem Paced.done (paced : Paced states inputs) :
    (states (7 * wings + 7)).wing.dataRdyOh = false := by
  have noRequest : (states (7 * wings + 2)).fsm.samplesRdyOh = false := by
    rw [paced.runs.samplesRdy, if_neg]
    rw [(paced.waiting 0 (by decide)).pstate]
    decide
  rw [paced.runs.dataRdy (7 * wings + 1), noRequest, paced.request (Nat.le_refl _)]
  decide

theorem Paced.lastWrite (paced : Paced states inputs) :
    FgyrusFsm.lastWriteC (states (7 * wings + 7)).fsm
      (fsmInputs (states (7 * wings + 7)) (inputs (7 * wings + 7))) = true := by
  have last := (paced.waiting 6 (by decide)).lastWrite inputs
  rw [paced.dataRdy (Nat.le_refl _), paced.done] at last
  exact last.trans (by decide)

theorem Paced.cordic (paced : Paced states inputs) :
    (states stageClocks).fsm.fsmPstate = .cordic := by
  have waiting := paced.waiting 6 (by decide)
  rw [stageClocks, paced.runs.fsm (7 * wings + 7)]
  simp only [FgyrusFsm.step, FgyrusFsm.nextPstate, waiting.pstate, paced.lastWrite, reduceIte]

theorem Stages.noWrite (stages : Stages states inputs) {i : Nat} (inside : i < stageClocks)
    (phase : i < 13 ∨ i % 7 ≠ 6 ∧ i % 7 ≠ 0) :
    (states i).fsm.fftRamWrRealEnOh = false ∧ (states i).fsm.fftRamWrImEnOh = false := by
  cases i with
  | zero => exact ⟨stages.noRealWrite, stages.noImWrite⟩
  | succ i =>
      have quiet : (states i).wing.dataRdyOh = false := by
        rw [stages.dataRdy (by rw [stageClocks] at inside; omega), decide_eq_false_iff_not]
        omega
      rw [← quiet]
      exact (stages.computing (by omega)).wrEn stages.runs

/-! ### One butterfly -/

theorem wing_first (twiddles : BitVec 7 → BitVec 32) (n : Nat) :
    cntrReg n + offsetReg n = (wingAt twiddles n).first :=
  (BitVec.ofNat_add _ _).symm

theorem wing_second (twiddles : BitVec 7 → BitVec 32) (n : Nat) :
    (wingAt twiddles n).first + stageReg n = (wingAt twiddles n).second :=
  (BitVec.ofNat_add _ _).symm

section Butterfly

variable (twiddles : BitVec 7 → BitVec 32) {n : Nat}

theorem Stages.settled (stages : Stages states inputs) (inside : n < wings) {i : Nat}
    (phase : 1 ≤ i ∧ i ≤ 6) : Settled n (states (7 * n + i)).fsm := by
  have clock := stages.clocks (7 * n + i) (by omega)
  have settled := clock.settled (by omega)
  rwa [show (7 * n + i) / 7 = n by omega] at settled

theorem Stages.bit (stages : Stages states inputs) {i : Nat} (inside : i < stageClocks)
    (k : Nat) : (states i).fsm.pstVecF.getLsbD k = decide (i % 7 = k) :=
  (stages.computing inside).bit k

theorem Stages.sample1 (stages : Stages states inputs) (inside : n < wings) {i : Nat}
    (phase : 1 ≤ i ∧ i ≤ 6) :
    (states (7 * n + i + 1)).fsm.fftSample1F = (wingAt twiddles n).first := by
  have settled := stages.settled inside phase
  rw [stages.runs.fftSample1, settled.cntr, settled.offset, wing_first twiddles]

theorem Stages.sample2 (stages : Stages states inputs) (inside : n < wings) {i : Nat}
    (phase : 1 ≤ i ∧ i ≤ 5) :
    (states (7 * n + i + 2)).fsm.fftSample2F = (wingAt twiddles n).second := by
  have settled : Settled n (states (7 * n + i + 1)).fsm :=
    stages.settled inside (i := i + 1) (by omega)
  rw [stages.runs.fftSample2, stages.sample1 twiddles inside (by omega), settled.stage,
    wing_second]

theorem Stages.sampleA (stages : Stages states inputs) (inside : n < wings) :
    ∀ i ≤ 6, (states (7 * n + 6 + i)).fsm.sampleAOd =
      cache (states (7 * n + 3)) (wingAt twiddles n).first := by
  have range : 7 * n + 14 < stageClocks := by
    simp only [stageClocks, wings] at *
    omega
  have address : (states (7 * n + 3)).fsm.fftRamRdAddrOd = (wingAt twiddles n).first := by
    rw [stages.runs.rdAddr (stages.settled inside (i := 2) (by omega)).pstate,
      stages.bit (by omega), decide_eq_false (by omega)]
    exact stages.sample1 twiddles inside (i := 1) (by omega)
  obtain ⟨real, im⟩ := stages.noWrite (i := 7 * n + 3) (by omega) (by omega)
  have word := stages.runs.cache_read (stages.access (i := 7 * n + 3) (by omega)) real im
  have captured : (states (7 * n + 6)).fsm.sampleAOd =
      cache (states (7 * n + 3)) (wingAt twiddles n).first := by
    rw [stages.runs.sampleA, stages.bit (by omega), if_pos (decide_eq_true (by omega)), word,
      address]
  intro i small
  rw [← captured]
  refine holds_over (fun t => (states t).fsm.sampleAOd) ?_ i small
  intro k early
  rw [stages.runs.sampleA, stages.bit (by omega), decide_eq_false (by omega)]
  rfl

theorem Stages.sampleB (stages : Stages states inputs) (inside : n < wings) :
    ∀ i ≤ 6, (states (7 * n + 7 + i)).fsm.sampleBOd =
      cache (states (7 * n + 4)) (wingAt twiddles n).second := by
  have range : 7 * n + 14 < stageClocks := by
    simp only [stageClocks, wings] at *
    omega
  have address : (states (7 * n + 4)).fsm.fftRamRdAddrOd = (wingAt twiddles n).second := by
    rw [stages.runs.rdAddr (stages.settled inside (i := 3) (by omega)).pstate,
      stages.bit (by omega), if_pos (decide_eq_true (by omega))]
    exact stages.sample2 twiddles inside (i := 1) (by omega)
  obtain ⟨real, im⟩ := stages.noWrite (i := 7 * n + 4) (by omega) (by omega)
  have word := stages.runs.cache_read (stages.access (i := 7 * n + 4) (by omega)) real im
  have captured : (states (7 * n + 7)).fsm.sampleBOd =
      cache (states (7 * n + 4)) (wingAt twiddles n).second := by
    rw [stages.runs.sampleB, stages.bit (by omega), if_pos (decide_eq_true (by omega)), word,
      address]
  intro i small
  rw [← captured]
  refine holds_over (fun t => (states t).fsm.sampleBOd) ?_ i small
  intro k early
  rw [stages.runs.sampleB, stages.bit (by omega), decide_eq_false (by omega)]
  rfl

theorem Stages.wrAddresses (stages : Stages states inputs) (inside : n < wings) :
    ∀ i ≤ 6, (states (7 * n + 7 + i)).fsm.fftSample11d = (wingAt twiddles n).first ∧
      (states (7 * n + 7 + i)).fsm.fftSample21d = (wingAt twiddles n).second := by
  have range : 7 * n + 14 < stageClocks := by
    simp only [stageClocks, wings] at *
    omega
  have first : (states (7 * n + 7)).fsm.fftSample11d = (wingAt twiddles n).first := by
    rw [stages.runs.fftSample11d, stages.bit (by omega), if_pos (decide_eq_true (by omega))]
    exact stages.sample1 twiddles inside (i := 5) (by omega)
  have second : (states (7 * n + 7)).fsm.fftSample21d = (wingAt twiddles n).second := by
    rw [stages.runs.fftSample21d, stages.bit (by omega), if_pos (decide_eq_true (by omega))]
    exact stages.sample2 twiddles inside (i := 4) (by omega)
  intro i small
  rw [← first, ← second]
  constructor
  · refine holds_over (fun t => (states t).fsm.fftSample11d) ?_ i small
    intro k early
    rw [stages.runs.fftSample11d, stages.bit (by omega), decide_eq_false (by omega)]
    rfl
  · refine holds_over (fun t => (states t).fsm.fftSample21d) ?_ i small
    intro k early
    rw [stages.runs.fftSample21d, stages.bit (by omega), decide_eq_false (by omega)]
    rfl

theorem Stages.twiddles_keep (stages : Stages states inputs) :
    ∀ i ≤ stageClocks, (states i).twiddleRam.memory = (states 0).twiddleRam.memory := by
  intro i
  induction i with
  | zero => exact fun _ => rfl
  | succ i ih =>
      intro inside
      rw [stages.runs.twiddle_keep (stages.access (by omega)), ih (by omega)]

theorem Stages.twiddle (stages : Stages states inputs) (inside : n < wings) {i : Nat}
    (phase : 1 ≤ i ∧ i ≤ 6) :
    (states (7 * n + i + 2)).twiddleRam.q =
      (states 0).twiddleRam.memory (BitVec.ofNat 7 (2 ^ stageNo n + offset n)) := by
  have range : 7 * n + 14 < stageClocks := by
    simp only [stageClocks, wings] at *
    omega
  rw [stages.runs.twiddle_read (stages.access (by omega)),
    (stages.settled inside phase).twiddle, stages.twiddles_keep _ (by omega)]
  rfl

/-- The words butterfly `n` makes of the operands it has read. -/
def result (states : Nat → State) (n : Nat) :
    ButterflyWing.Complex 32 × ButterflyWing.Complex 32 :=
  let wing := wingAt (states 0).twiddleRam.memory n
  wing.op (cache (states (7 * n + 3)) wing.first) (cache (states (7 * n + 4)) wing.second)

/-- A word that leaves the wing in clock `i` is in the cache two clocks later. -/
theorem Stages.write (stages : Stages states inputs) {i : Nat} (inside : i + 1 < stageClocks)
    (ready : (states i).wing.dataRdyOh = true) :
    cache (states (i + 2)) =
      store (cache (states (i + 1))) true (FgyrusFsm.butterflyWrAddr (states i).fsm)
        (states i).wing.dataOd := by
  have computing := stages.computing (i := i) (by omega)
  obtain ⟨real, im⟩ := computing.wrEn stages.runs
  obtain ⟨realData, imData⟩ := computing.wrData stages.runs
  rw [ready] at real im
  rw [stages.runs.cache_write (stages.access inside) real im,
    stages.wrAddr (by rw [stageClocks] at inside; omega), realData, imData]

theorem Stages.write_first (stages : Stages states inputs) (inside : n < wings) :
    cache (states (7 * n + 14)) =
      store (cache (states (7 * n + 13))) true
        (wingAt (states 0).twiddleRam.memory n).first (result states n).1 := by
  have range : 7 * n + 14 < stageClocks := by
    simp only [stageClocks, wings] at *
    omega
  have request : (states (7 * n + 7)).fsm.samplesRdyOh = true := by
    rw [stages.request (by omega), decide_eq_true_eq]
    omega
  have ready : (states (7 * n + 12)).wing.dataRdyOh = true := by
    rw [stages.dataRdy (by rw [stageClocks] at range; omega), decide_eq_true_eq]
    omega
  have address : FgyrusFsm.butterflyWrAddr (states (7 * n + 12)).fsm =
      (wingAt (states 0).twiddleRam.memory n).first := by
    rw [FgyrusFsm.butterflyWrAddr, stages.bit (by omega), if_pos (decide_eq_true (by omega))]
    exact (stages.wrAddresses _ inside 5 (by omega)).1
  have word : (states (7 * n + 12)).wing.dataOd = (result states n).1 := by
    rw [stages.runs.dataOd_sum (7 * n + 7) request, stages.twiddle inside (i := 5) (by omega),
      FftReference.wingOut_eq, stages.sampleA (states 0).twiddleRam.memory inside 5 (by omega),
      stages.sampleB (states 0).twiddleRam.memory inside 0 (by omega)]
    rfl
  rw [stages.write (i := 7 * n + 12) (by omega) ready, address, word]

theorem Stages.write_second (stages : Stages states inputs) (inside : n < wings) :
    cache (states (7 * n + 15)) =
      store (cache (states (7 * n + 14))) true
        (wingAt (states 0).twiddleRam.memory n).second (result states n).2 := by
  have range : 7 * n + 14 < stageClocks := by
    simp only [stageClocks, wings] at *
    omega
  have request : (states (7 * n + 7)).fsm.samplesRdyOh = true := by
    rw [stages.request (by omega), decide_eq_true_eq]
    omega
  have single : (states (7 * n + 8)).fsm.samplesRdyOh = false := by
    rw [stages.request (by omega), decide_eq_false_iff_not]
    omega
  have ready : (states (7 * n + 13)).wing.dataRdyOh = true := by
    rw [stages.dataRdy (by rw [stageClocks] at range; omega), decide_eq_true_eq]
    omega
  have address : FgyrusFsm.butterflyWrAddr (states (7 * n + 13)).fsm =
      (wingAt (states 0).twiddleRam.memory n).second := by
    rw [FgyrusFsm.butterflyWrAddr, stages.bit (by omega), decide_eq_false (by omega)]
    exact (stages.wrAddresses _ inside 6 (by omega)).2
  have word : (states (7 * n + 13)).wing.dataOd = (result states n).2 := by
    rw [stages.runs.dataOd_difference (7 * n + 7) request single,
      stages.twiddle inside (i := 6) (by omega), FftReference.wingOut_eq,
      stages.sampleA (states 0).twiddleRam.memory inside 6 (by omega),
      stages.sampleB (states 0).twiddleRam.memory inside 1 (by omega)]
    rfl
  rw [stages.write (i := 7 * n + 13) (by omega) ready, address, word]

theorem Stages.cache_keeps (stages : Stages states inputs) {i : Nat} (inside : i < stageClocks)
    (phase : i < 13 ∨ i % 7 ≠ 6 ∧ i % 7 ≠ 0) :
    cache (states (i + 1)) = cache (states i) := by
  obtain ⟨real, im⟩ := stages.noWrite inside phase
  exact stages.runs.cache_keep (stages.access inside) real im

end Butterfly

/-! ### All butterflies -/

/-- What the cache holds around butterfly `n`: its operands are read while the
butterfly before it is still under way. -/
structure Landed (states : Nat → State) (n : Nat) : Prop where
  operands : cache (states (7 * n + 3)) =
      wingsRun (states 0).twiddleRam.memory (cache (states 0)) (n - 1) ∧
    cache (states (7 * n + 4)) =
      wingsRun (states 0).twiddleRam.memory (cache (states 0)) (n - 1)
  landed : ∀ i ≤ 5, cache (states (7 * n + 8 + i)) =
    wingsRun (states 0).twiddleRam.memory (cache (states 0)) n

theorem Stages.landed_writes (stages : Stages states inputs) {n : Nat} (inside : n < wings)
    (landed : Landed states n) :
    cache (states (7 * n + 15)) =
      wingsRun (states 0).twiddleRam.memory (cache (states 0)) (n + 1) := by
  have operands : result states n =
      (wingAt (states 0).twiddleRam.memory n).op
        (wingsRun (states 0).twiddleRam.memory (cache (states 0)) n
          (wingAt (states 0).twiddleRam.memory n).first)
        (wingsRun (states 0).twiddleRam.memory (cache (states 0)) n
          (wingAt (states 0).twiddleRam.memory n).second) := by
    rw [result, landed.operands.1, landed.operands.2]
    cases n with
    | zero => rfl
    | succ n =>
        obtain ⟨first, second⟩ := (wingAt_apart _ inside).operands
          (wingsRun (states 0).twiddleRam.memory (cache (states 0)) n)
        rw [wingsRun, first, second]
        rfl
  rw [stages.write_second inside, stages.write_first inside,
    landed.landed 5 (Nat.le_refl 5), operands, Wing.store_store_eq_apply]
  rfl

theorem Stages.landed (stages : Stages states inputs) : ∀ n < wings, Landed states n := by
  intro n
  induction n with
  | zero =>
      intro _
      have start : ∀ i ≤ 13, cache (states i) = cache (states 0) := by
        intro i
        induction i with
        | zero => exact fun _ => rfl
        | succ i ih =>
            intro early
            rw [stages.cache_keeps (by rw [stageClocks, wings]; omega) (.inl (by omega)),
              ih (by omega)]
      exact
        { operands := ⟨start 3 (by decide), start 4 (by decide)⟩
          landed := fun i small => start (8 + i) (by omega) }
  | succ n ih =>
      intro inside
      have before := ih (by omega)
      have range : 7 * n + 21 < stageClocks := by
        simp only [stageClocks, wings] at *
        omega
      refine
        { operands := ⟨?_, ?_⟩
          landed := ?_ }
      · exact before.landed 2 (by decide)
      · exact before.landed 3 (by decide)
      · intro i small
        rw [← stages.landed_writes (by omega) before]
        refine holds_over (fun t => cache (states t)) (t := 7 * n + 15) ?_ i small
        intro k early
        exact stages.cache_keeps (by omega) (.inr (by omega))

/-- The stages leave the transform of what was in the cache. -/
theorem Stages.cache_eq (stages : Stages states inputs) :
    cache (states stageClocks) =
      wingsRun (states 0).twiddleRam.memory (cache (states 0)) wings :=
  stages.landed_writes (n := wings - 1) (by decide) (stages.landed _ (by decide))

end Stages

end Synesthesia.FftEngine
