/-
From the WAV parser to the FFT cache: one channel of the audio block and the
sequencer of its FFT engine on the common clock.

The reader follows the half that is not written, so a copied frame is whole only
if the parser needs longer for 128 samples than the synchroniser and the copy
together.  The arbiter sees to that: in 136 clocks it grants the parser 64.
-/

import Synesthesia.AudioCortex.BffrFill
import Synesthesia.AudioCortex.PlayPath
import Synesthesia.FusiformGyrus.FftFrame

namespace Synesthesia.FftFeed

open Synesthesia.Rtl

inductive Channel where
  | left
  | right
  deriving DecidableEq, Repr

structure State where
  path : PlayPath.State
  bffr : Acortex2fgyrusBffr.State
  fsm : FgyrusFsm.State

/-- Everything the parser and the sequencer are not given by each other. -/
structure Inputs where
  path : PlayPath.Inputs
  mixed0 : BitVec 32
  mixed1 : BitVec 32
  fgyrusEnIh : Bool
  fgyrusPostNormId : BitVec 4
  fftRamRdDataId : ButterflyWing.Complex 32
  cordicRamRdDataId : BitVec 16
  fftDataId : ButterflyWing.Complex 32
  fftDataRdyIh : Bool

structure PowerUp where
  sram : BitVec 18 → BitVec 16
  header : BitVec 8 → BitVec 16
  pcmRam0 : BitVec 7 → BitVec 32
  pcmRam1 : BitVec 7 → BitVec 32
  sampleRealIsZero3d : Bool

def reset (powerUp : PowerUp) : State :=
  { path := PlayPath.reset powerUp.sram powerUp.header
    bffr := Acortex2fgyrusBffr.reset powerUp.pcmRam0 powerUp.pcmRam1
    fsm := FgyrusFsm.reset powerUp.sampleRealIsZero3d }

def Channel.word (channel : Channel) (frame : BitVec 32 × BitVec 32) : BitVec 32 :=
  match channel with
  | .left => frame.1
  | .right => frame.2

def bffrInputs (channel : Channel) (state : State) (inputs : Inputs) :
    Acortex2fgyrusBffr.Inputs :=
  { acortexPcmWrEnIh := state.path.prsr.pcmFfWrEnOh
    acortexPcmDataId := channel.word (state.path.prsr.pcmFfLdataOd, state.path.prsr.pcmFfRdataOd)
    fgyrusPcmRdAddrId := FgyrusFsm.pcmRamRdAddrOd state.fsm
    mixed0 := inputs.mixed0
    mixed1 := inputs.mixed1 }

def fsmInputs (state : State) (inputs : Inputs) : FgyrusFsm.Inputs :=
  { fgyrusEnIh := inputs.fgyrusEnIh
    fgyrusPostNormId := inputs.fgyrusPostNormId
    fgyrusPcmRdyIh := Acortex2fgyrusBffr.fgyrusPcmRdyOh state.bffr
    pcmRamRdDataId := Acortex2fgyrusBffr.fgyrusPcmDataOd state.bffr
    fftRamRdDataId := inputs.fftRamRdDataId
    cordicRamRdDataId := inputs.cordicRamRdDataId
    fftDataId := inputs.fftDataId
    fftDataRdyIh := inputs.fftDataRdyIh }

def step (channel : Channel) (state : State) (inputs : Inputs) : State :=
  { path := PlayPath.step state.path inputs.path
    bffr := Acortex2fgyrusBffr.step state.bffr (bffrInputs channel state inputs)
    fsm := FgyrusFsm.step state.fsm (fsmInputs state inputs) }

section Run

variable (channel : Channel) (powerUp : PowerUp) (inputs : Nat → Inputs)

def stateAt : Nat → State := run (step channel) (reset powerUp) inputs

def bffrInputsAt (t : Nat) : Acortex2fgyrusBffr.Inputs :=
  bffrInputs channel (stateAt channel powerUp inputs t) (inputs t)

def samples (t : Nat) : List (BitVec 32) :=
  (PlayPath.emitted powerUp.sram powerUp.header (fun k => (inputs k).path) t).map channel.word

/-- The sequencer leaves its idle state at the end of cycle `t`. -/
def Leaves (t : Nat) : Prop :=
  (stateAt channel powerUp inputs t).fsm.fsmPstate = .idle ∧
    (stateAt channel powerUp inputs (t + 1)).fsm.fsmPstate ≠ .idle

/-- The copy that begins after cycle `start` moves samples `128 * m ..` of the
parser to the cache, the one at address `a` being that at the reversed position,
and all of them come from one half. -/
structure Intact (start m : Nat) : Prop where
  copies : ∀ i ≤ 130, (stateAt channel powerUp inputs (start + 1 + i)).fsm.fsmPstate = .decimate
  ends : (stateAt channel powerUp inputs (start + 132)).fsm.fsmPstate = .fft
  realWrite : ∀ i ≤ 131,
    (stateAt channel powerUp inputs (start + 1 + i)).fsm.fftRamWrRealEnOh =
      decide (3 ≤ i ∧ i ≤ 130)
  imWrite : ∀ i ≤ 131,
    (stateAt channel powerUp inputs (start + 1 + i)).fsm.fftRamWrImEnOh =
      decide (3 ≤ i ∧ i ≤ 130)
  wrAddr : ∀ a : BitVec 7,
    (stateAt channel powerUp inputs (start + 4 + a.toNat)).fsm.fftRamWrAddrOd = a
  wrReal : ∀ a : BitVec 7,
    (samples channel powerUp inputs start)[128 * m + a.reverse.toNat]? =
      some (stateAt channel powerUp inputs (start + 4 + a.toNat)).fsm.fftRamWrRealDataOd
  wrIm : ∀ a : BitVec 7,
    (stateAt channel powerUp inputs (start + 4 + a.toNat)).fsm.fftRamWrImDataOd = 0
  /-- The word was taken from the half that is not written. -/
  half : ∀ a : BitVec 7,
    (!Acortex2fgyrusBffr.wrHalf (stateAt channel powerUp inputs (start + 3 + a.toNat)).bffr) =
      decide (m % 2 = 1)

/-! ### The parts of the system -/

theorem stateAt_succ (t : Nat) :
    stateAt channel powerUp inputs (t + 1) =
      step channel (stateAt channel powerUp inputs t) (inputs t) := rfl

theorem path_run (t : Nat) :
    (stateAt channel powerUp inputs t).path =
      PlayPath.stateAt powerUp.sram powerUp.header (fun k => (inputs k).path) t := by
  induction t with
  | zero => rfl
  | succ t ih =>
      rw [stateAt_succ, PlayPath.stateAt, run_succ, ← PlayPath.stateAt, ← ih]
      rfl

theorem bffr_run (t : Nat) :
    (stateAt channel powerUp inputs t).bffr =
      BffrFill.stateAt powerUp.pcmRam0 powerUp.pcmRam1 (bffrInputsAt channel powerUp inputs)
        t := by
  induction t with
  | zero => rfl
  | succ t ih =>
      rw [stateAt_succ, BffrFill.stateAt_succ, ← ih]
      rfl

theorem fsm_succ (t : Nat) :
    (stateAt channel powerUp inputs (t + 1)).fsm =
      FgyrusFsm.step (stateAt channel powerUp inputs t).fsm
        (fsmInputs (stateAt channel powerUp inputs t) (inputs t)) := rfl

theorem samples_eq (t : Nat) :
    samples channel powerUp inputs t =
      BffrFill.samples (bffrInputsAt channel powerUp inputs) t := by
  induction t with
  | zero => rfl
  | succ t ih =>
      rw [BffrFill.samples_succ, ← ih, samples, PlayPath.emitted, collect_succ,
        ← PlayPath.emitted, List.map_append, ← samples, ← path_run channel]
      simp only [bffrInputsAt, bffrInputs, WavPrsr.Pcm.written, WavPrsr.Regs.pcm]
      cases (stateAt channel powerUp inputs t).path.prsr.pcmFfWrEnOh <;> rfl

theorem stageReady (t : Nat) : FgyrusFsm.StageReady (stateAt channel powerUp inputs t).fsm := by
  induction t with
  | zero => exact FgyrusFsm.stageReady_reset _
  | succ t ih => exact FgyrusFsm.stageReady_step ih _

/-! ### The pace of the parser -/

def slots (t : Nat) : Nat := 16 * (t / 34) + min 16 (t % 34 - 17)

theorem slots_succ (t : Nat) :
    slots (t + 1) = slots t + if 17 ≤ t % 34 ∧ t % 34 < 33 then 1 else 0 := by
  rw [slots, slots]
  split <;> omega

theorem slots_mono {earlier later : Nat} (before : earlier ≤ later) :
    slots earlier ≤ slots later := by
  obtain ⟨gap, rfl⟩ := Nat.exists_eq_add_of_le before
  clear before
  induction gap with
  | zero => exact Nat.le_refl _
  | succ gap ih =>
      rw [← Nat.add_assoc, slots_succ]
      omega

theorem arb_run (t : Nat) :
    (stateAt channel powerUp inputs t).path.sram.arb =
      run SramArb.step SramArb.reset
        (fun k => SramPath.arbInputs (stateAt channel powerUp inputs k).path.sram
          (PlayPath.sramInputs (stateAt channel powerUp inputs k).path (inputs k).path)) t := by
  induction t with
  | zero => rfl
  | succ t ih =>
      rw [run_succ, ← ih]
      rfl

/-- A sample is the answer to a request in the parser's slot four clocks before. -/
theorem write_in_slot {t : Nat}
    (write : (stateAt channel powerUp inputs (t + 4)).path.prsr.pcmFfWrEnOh = true) :
    17 ≤ t % 34 ∧ t % 34 < 33 := by
  have valid : (stateAt channel powerUp inputs (t + 3)).path.sram.arb.imRdValidOh = true :=
    WavPrsr.wrEn_needs_valid write
  have issued : (SramArb.arbImSelC (stateAt channel powerUp inputs t).path.sram.arb &&
      WavPrsr.sramRdEnOh (stateAt channel powerUp inputs t).path.prsr (inputs t).path.pcmFfAfullC &&
      !(stateAt channel powerUp inputs t).path.sram.ff.sramEmptyOh) = true := valid
  rw [Bool.and_eq_true, Bool.and_eq_true, SramArb.arbImSelC, decide_eq_true_eq, arb_run,
    (SramArb.run_slot _ t).1] at issued
  have owner := issued.1.1
  simp only [SramArb.slotOwner] at owner
  split at owner
  · cases owner
  · split at owner
    · cases owner
    · split at owner
      · omega
      · cases owner

theorem no_early_write {t : Nat} (early : t < 4) :
    (stateAt channel powerUp inputs t).path.prsr.pcmFfWrEnOh = false := by
  rw [← Bool.not_eq_true]
  intro write
  have cases : t = 0 ∨ t = 1 ∨ t = 2 ∨ t = 3 := by
    omega
  rcases cases with rfl | rfl | rfl | rfl
  · cases write
  · cases WavPrsr.wrEn_needs_valid write
  · cases WavPrsr.wrEn_needs_valid write
  · cases WavPrsr.wrEn_needs_valid write

theorem samples_length_succ (t : Nat) :
    (samples channel powerUp inputs (t + 1)).length =
      (samples channel powerUp inputs t).length +
        (stateAt channel powerUp inputs t).path.prsr.pcmFfWrEnOh.toNat := by
  rw [samples_eq, samples_eq, BffrFill.samples_length_succ]
  rfl

theorem samples_le_slots (t i : Nat) :
    (samples channel powerUp inputs (t + 4 + i)).length + slots t ≤
      (samples channel powerUp inputs (t + 4)).length + slots (t + i) := by
  induction i with
  | zero => exact Nat.le_refl _
  | succ i ih =>
      rw [← Nat.add_assoc, ← Nat.add_assoc, samples_length_succ, slots_succ]
      cases write : (stateAt channel powerUp inputs (t + 4 + i)).path.prsr.pcmFfWrEnOh with
      | false =>
          rw [Bool.toNat_false]
          omega
      | true =>
          rw [Nat.add_right_comm] at write
          rw [if_pos (write_in_slot channel powerUp inputs write), Bool.toNat_true]
          omega

theorem samples_pace (t : Nat) {i : Nat} (soon : i ≤ 136) :
    (samples channel powerUp inputs (t + 4 + i)).length ≤
      (samples channel powerUp inputs (t + 4)).length + 64 := by
  have pace := samples_le_slots channel powerUp inputs t i
  have mono := slots_mono (Nat.add_le_add_left soon t)
  have rotations : slots (t + 136) = slots t + 64 := by
    rw [slots, slots]
    omega
  omega

/-! ### One frame -/

/-- Leaving the idle state takes a pulse, and the pulse a filled half. -/
theorem leaves_after {start : Nat} (leaves : Leaves channel powerUp inputs start) :
    ∃ k, start = k + 5 ∧ (inputs start).fgyrusEnIh = true ∧
      Acortex2fgyrusBffr.fgyrusPcmRdyOh (stateAt channel powerUp inputs start).bffr = true ∧
      (samples channel powerUp inputs k).length % 128 = 127 ∧
      (stateAt channel powerUp inputs k).path.prsr.pcmFfWrEnOh = true := by
  obtain ⟨idle, left⟩ := leaves
  have next : (stateAt channel powerUp inputs (start + 1)).fsm.fsmPstate =
      if Acortex2fgyrusBffr.fgyrusPcmRdyOh (stateAt channel powerUp inputs start).bffr &&
        (inputs start).fgyrusEnIh then .decimate else .idle := by
    rw [fsm_succ]
    simp only [FgyrusFsm.step, FgyrusFsm.nextPstate, idle, fsmInputs]
    rfl
  rw [next] at left
  have started : Acortex2fgyrusBffr.fgyrusPcmRdyOh (stateAt channel powerUp inputs start).bffr =
      true ∧ (inputs start).fgyrusEnIh = true := by
    rw [← Bool.and_eq_true]
    by_contra off
    exact left (if_neg off)
  have pulse := started.1
  rw [bffr_run] at pulse
  obtain ⟨k, same, last, write⟩ := BffrFill.ready_after _ _ _ pulse
  rw [← samples_eq] at last
  exact ⟨k, same, started.2, started.1, last, write⟩

/-- A half that is filled while the engine is on and idle five clocks later is copied. -/
theorem leaves_of_filled {k : Nat}
    (last : (samples channel powerUp inputs k).length % 128 = 127)
    (write : (stateAt channel powerUp inputs k).path.prsr.pcmFfWrEnOh = true)
    (idle : (stateAt channel powerUp inputs (k + 5)).fsm.fsmPstate = .idle)
    (enabled : (inputs (k + 5)).fgyrusEnIh = true) : Leaves channel powerUp inputs (k + 5) := by
  have pulse : Acortex2fgyrusBffr.fgyrusPcmRdyOh (stateAt channel powerUp inputs (k + 5)).bffr =
      true := by
    rw [bffr_run, BffrFill.ready_late, BffrFill.pulseA_iff, ← samples_eq]
    exact ⟨last, write⟩
  refine ⟨idle, ?_⟩
  rw [fsm_succ]
  simp only [FgyrusFsm.step, FgyrusFsm.nextPstate, idle, fsmInputs, pulse, enabled, Bool.and_self,
    reduceIte]
  decide

theorem samples_window {k : Nat} (last : (samples channel powerUp inputs k).length % 128 = 127)
    (write : (stateAt channel powerUp inputs k).path.prsr.pcmFfWrEnOh = true) {i : Nat}
    (soon : i ≤ 136) :
    128 * ((samples channel powerUp inputs k).length / 128 + 1) ≤
        (samples channel powerUp inputs (k + 1 + i)).length ∧
      (samples channel powerUp inputs (k + 1 + i)).length ≤
        128 * ((samples channel powerUp inputs k).length / 128 + 1) + 64 := by
  have filled := samples_length_succ channel powerUp inputs k
  rw [write, Bool.toNat_true] at filled
  have mono : (samples channel powerUp inputs (k + 1)).length ≤
      (samples channel powerUp inputs (k + 1 + i)).length := by
    rw [samples_eq, samples_eq]
    exact BffrFill.samples_length_mono _ (Nat.le_add_right _ _)
  have late : 3 ≤ k := by
    by_contra early
    rw [no_early_write channel powerUp inputs (by omega)] at write
    cases write
  obtain ⟨t, rfl⟩ := Nat.exists_eq_add_of_le' late
  have pace : (samples channel powerUp inputs (t + 3 + 1 + i)).length ≤
      (samples channel powerUp inputs (t + 3 + 1)).length + 64 :=
    samples_pace channel powerUp inputs t soon
  constructor <;> omega

theorem leaves_copying {start : Nat} (leaves : Leaves channel powerUp inputs start) :
    ∀ i ≤ 130, FgyrusFsm.Copying i (stateAt channel powerUp inputs (start + 1 + i)).fsm := by
  obtain ⟨k, _, enabled, pulse, _⟩ := leaves_after channel powerUp inputs leaves
  have idle := leaves.1
  intro i
  induction i with
  | zero =>
      intro _
      rw [Nat.add_zero, fsm_succ]
      have stage : (stateAt channel powerUp inputs start).fsm.fftStageNoF = 1 := by
        refine (stageReady channel powerUp inputs start).2 ?_
        rw [idle]
        decide
      exact FgyrusFsm.copying_start idle pulse enabled stage
  | succ i ih =>
      intro inside
      rw [← Nat.add_assoc, fsm_succ]
      exact FgyrusFsm.copying_step (ih (by omega)) (by omega) _

def frameNo (start : Nat) : Nat := (samples channel powerUp inputs start).length / 128 - 1

theorem leaves_window {start : Nat} (leaves : Leaves channel powerUp inputs start) {i : Nat}
    (soon : i ≤ 132) :
    128 * (frameNo channel powerUp inputs start + 1) ≤
        (samples channel powerUp inputs (start + i)).length ∧
      (samples channel powerUp inputs (start + i)).length <
        128 * (frameNo channel powerUp inputs start + 2) := by
  obtain ⟨k, rfl, _, _, last, write⟩ := leaves_after channel powerUp inputs leaves
  have now := samples_window channel powerUp inputs last write (i := 4) (by decide)
  have later := samples_window channel powerUp inputs last write (i := 4 + i) (by omega)
  rw [show k + 1 + 4 = k + 5 by omega] at now
  rw [show k + 1 + (4 + i) = k + 5 + i by omega] at later
  rw [frameNo]
  omega

theorem leaves_half {start : Nat} (leaves : Leaves channel powerUp inputs start) {i : Nat}
    (soon : i ≤ 132) :
    Acortex2fgyrusBffr.wrHalf (stateAt channel powerUp inputs (start + i)).bffr =
      !decide (frameNo channel powerUp inputs start % 2 = 1) := by
  have window := leaves_window channel powerUp inputs leaves soon
  rw [samples_eq] at window
  rw [bffr_run, BffrFill.wrHalf_eq, ← decide_not, decide_eq_decide]
  omega

theorem leaves_wrReal {start : Nat} (leaves : Leaves channel powerUp inputs start)
    (a : BitVec 7) :
    (samples channel powerUp inputs start)[
        128 * frameNo channel powerUp inputs start + a.reverse.toNat]? =
      some (stateAt channel powerUp inputs (start + 4 + a.toNat)).fsm.fftRamWrRealDataOd := by
  have inside := a.isLt
  have reading := leaves_copying channel powerUp inputs leaves a.toNat (by omega)
  have taking := leaves_copying channel powerUp inputs leaves (a.toNat + 2) (by omega)
  have address : (bffrInputsAt channel powerUp inputs (start + 1 + a.toNat)).fgyrusPcmRdAddrId =
      a.reverse := by
    change (stateAt channel powerUp inputs (start + 1 + a.toNat)).fsm.sampleCntrF.reverse = _
    rw [reading.cntr, BitVec.ofNat_toNat, BitVec.setWidth_eq]
  have registered :
      (stateAt channel powerUp inputs (start + 4 + a.toNat)).fsm.fftRamWrRealDataOd =
        Acortex2fgyrusBffr.fgyrusPcmDataOd
          (stateAt channel powerUp inputs (start + 1 + a.toNat + 2)).bffr := by
    rw [show start + 4 + a.toNat = start + 1 + (a.toNat + 2) + 1 by omega, fsm_succ]
    simp only [FgyrusFsm.step, FgyrusFsm.nextFftRamWrRealData, taking.pstate, fsmInputs]
    rfl
  have before := leaves_window channel powerUp inputs leaves (i := 1 + a.toNat) (by omega)
  have after := leaves_window channel powerUp inputs leaves (i := 3 + a.toNat) (by omega)
  rw [← Nat.add_assoc, samples_eq] at before after
  have shown := BffrFill.data_of_half powerUp.pcmRam0 powerUp.pcmRam1
    (bffrInputsAt channel powerUp inputs) (start + 1 + a.toNat)
    (frameNo channel powerUp inputs start) before.1 (by
      rw [show start + 1 + a.toNat + 2 = start + 3 + a.toNat by omega]
      exact after.2)
  rw [address, ← bffr_run, ← registered, ← samples_eq] at shown
  rw [← shown]
  have prefix' : samples channel powerUp inputs start <+:
      samples channel powerUp inputs (start + 1 + a.toNat) := by
    rw [samples_eq, samples_eq, Nat.add_assoc]
    exact collect_isPrefix _ start (1 + a.toNat)
  have window := leaves_window channel powerUp inputs leaves (i := 0) (by decide)
  have reversed := a.reverse.isLt
  obtain ⟨more, whole⟩ := prefix'
  rw [← whole, List.getElem?_append_left]
  rw [Nat.add_zero start] at window
  omega

theorem leaves_intact {start : Nat} (leaves : Leaves channel powerUp inputs start) :
    Intact channel powerUp inputs start (frameNo channel powerUp inputs start) := by
  have copying := leaves_copying channel powerUp inputs leaves
  have last : (stateAt channel powerUp inputs (start + 1 + 131)).fsm =
      FgyrusFsm.step (stateAt channel powerUp inputs (start + 1 + 130)).fsm
        (fsmInputs (stateAt channel powerUp inputs (start + 1 + 130)) (inputs (start + 1 + 130))) :=
    rfl
  obtain ⟨clock, _, real, im⟩ := FgyrusFsm.copying_end (copying 130 (Nat.le_refl _))
    (fsmInputs (stateAt channel powerUp inputs (start + 1 + 130)) (inputs (start + 1 + 130)))
  rw [← last] at clock real im
  constructor
  case copies => exact fun i inside => (copying i inside).pstate
  case ends => exact (clock.settled (by decide)).pstate
  case realWrite =>
    intro i inside
    rcases Nat.lt_or_ge 130 i with after | during
    · rw [show i = 131 by omega, real]
      rfl
    · rw [(copying i during).realWrite, decide_eq_decide]
      omega
  case imWrite =>
    intro i inside
    rcases Nat.lt_or_ge 130 i with after | during
    · rw [show i = 131 by omega, im]
      rfl
    · rw [(copying i during).imWrite, decide_eq_decide]
      omega
  case wrAddr =>
    intro a
    have inside := a.isLt
    have address := (copying (a.toNat + 3) (by omega)).wrAddr
    rw [show start + 4 + a.toNat = start + 1 + (a.toNat + 3) by omega, address,
      ← BitVec.toNat_inj, BitVec.toNat_ofNat]
    omega
  case wrReal => exact leaves_wrReal channel powerUp inputs leaves
  case wrIm =>
    intro a
    have inside := a.isLt
    rw [show start + 4 + a.toNat = start + 1 + (a.toNat + 3) by omega]
    exact (copying (a.toNat + 3) (by omega)).imData
  case half =>
    intro a
    have inside := a.isLt
    rw [Nat.add_assoc, leaves_half channel powerUp inputs leaves (by omega), Bool.not_not]

theorem frameNo_lt {earlier later : Nat} (first : Leaves channel powerUp inputs earlier)
    (second : Leaves channel powerUp inputs later) (before : earlier < later) :
    frameNo channel powerUp inputs earlier < frameNo channel powerUp inputs later := by
  obtain ⟨k, rfl, _, _, last, write⟩ := leaves_after channel powerUp inputs first
  obtain ⟨j, rfl, _, _, last', write'⟩ := leaves_after channel powerUp inputs second
  have now := samples_window channel powerUp inputs last write (i := 4) (by decide)
  have then' := samples_window channel powerUp inputs last' write' (i := 4) (by decide)
  have filled := samples_window channel powerUp inputs last write (i := 0) (by decide)
  have mono : (samples channel powerUp inputs (k + 1)).length ≤
      (samples channel powerUp inputs j).length := by
    rw [samples_eq, samples_eq]
    exact BffrFill.samples_length_mono _ (by omega)
  rw [show k + 1 + 4 = k + 5 by omega] at now
  rw [show j + 1 + 4 = j + 5 by omega] at then'
  rw [Nat.add_zero (k + 1)] at filled
  rw [frameNo, frameNo]
  omega

end Run

/-- In every run, with any file, any enables and any other traffic: whenever the
sequencer leaves its idle state, the frame it copies to the FFT cache is a whole
block of 128 consecutive samples of the parser, taken from one half of the
buffer, and the numbers of these blocks increase from frame to frame. -/
theorem frames_not_torn (channel : Channel) (powerUp : PowerUp) (inputs : Nat → Inputs) :
    (∀ start, Leaves channel powerUp inputs start →
        Intact channel powerUp inputs start (frameNo channel powerUp inputs start)) ∧
      ∀ earlier later, Leaves channel powerUp inputs earlier →
        Leaves channel powerUp inputs later → earlier < later →
          frameNo channel powerUp inputs earlier < frameNo channel powerUp inputs later :=
  ⟨fun _ leaves => leaves_intact channel powerUp inputs leaves,
    fun _ _ first second before => frameNo_lt channel powerUp inputs first second before⟩

end Synesthesia.FftFeed
