/-
From the file to the spectra: the playback path, the ping-pong buffer and the FFT engine of
one channel, wired together on the common clock.
-/

import Synesthesia.AudioCortex.Playlist
import Synesthesia.FpgaTop.FftFeed
import Synesthesia.FusiformGyrus.HostReads

namespace Synesthesia.SpectrumPath

open Synesthesia.Rtl
open Synesthesia.FftEngine
open Synesthesia.FftFeed (Channel)
open Synesthesia.FgyrusTop (engineAt engineInputsAt frameResult received Undisturbed)

structure State where
  path : PlayPath.State
  bffr : Acortex2fgyrusBffr.State
  fgyrus : FgyrusTop.State

/-- The samples of the engine come from the buffer; its other inputs are free. -/
structure Inputs where
  path : PlayPath.Inputs
  mixed0 : BitVec 32
  mixed1 : BitVec 32
  fgyrus : FgyrusTop.Inputs

structure PowerUp where
  feed : FftFeed.PowerUp
  real : BitVec 7 → BitVec 32
  im : BitVec 7 → BitVec 32
  twiddle : BitVec 7 → BitVec 32
  cordic : BitVec 8 → BitVec 16

def reset (powerUp : PowerUp) : State :=
  { path := PlayPath.reset powerUp.feed.sram powerUp.feed.header
    bffr := Acortex2fgyrusBffr.reset powerUp.feed.pcmRam0 powerUp.feed.pcmRam1
    fgyrus := FgyrusTop.reset powerUp.feed.sampleRealIsZero3d powerUp.real powerUp.im
      powerUp.twiddle powerUp.cordic }

def bffrInputs (channel : Channel) (state : State) (inputs : Inputs) :
    Acortex2fgyrusBffr.Inputs :=
  { acortexPcmWrEnIh := state.path.prsr.pcmFfWrEnOh
    acortexPcmDataId := channel.word (state.path.prsr.pcmFfLdataOd, state.path.prsr.pcmFfRdataOd)
    fgyrusPcmRdAddrId := FgyrusFsm.pcmRamRdAddrOd state.fgyrus.engine.fsm
    mixed0 := inputs.mixed0
    mixed1 := inputs.mixed1 }

def fgyrusInputs (state : State) (inputs : Inputs) : FgyrusTop.Inputs :=
  { inputs.fgyrus with
    pcmRdyIh := Acortex2fgyrusBffr.fgyrusPcmRdyOh state.bffr
    pcmRamRdDataId := Acortex2fgyrusBffr.fgyrusPcmDataOd state.bffr }

def step (channel : Channel) (state : State) (inputs : Inputs) : State :=
  { path := PlayPath.step state.path inputs.path
    bffr := Acortex2fgyrusBffr.step state.bffr (bffrInputs channel state inputs)
    fgyrus := FgyrusTop.step state.fgyrus (fgyrusInputs state inputs) }

section Run

variable (channel : Channel) (powerUp : PowerUp) (inputs : Nat → Inputs)

def stateAt : Nat → State := run (step channel) (reset powerUp) inputs

theorem stateAt_succ (t : Nat) :
    stateAt channel powerUp inputs (t + 1) =
      step channel (stateAt channel powerUp inputs t) (inputs t) := rfl

def fgyrusInputsAt (t : Nat) : FgyrusTop.Inputs :=
  fgyrusInputs (stateAt channel powerUp inputs t) (inputs t)

/-- The engine, as a run of its own over what it gets. -/
def engine : Nat → FftEngine.State :=
  engineAt powerUp.feed.sampleRealIsZero3d powerUp.real powerUp.im powerUp.twiddle powerUp.cordic
    (fgyrusInputsAt channel powerUp inputs)

def engineInputs : Nat → FftEngine.Inputs :=
  engineInputsAt powerUp.feed.sampleRealIsZero3d powerUp.real powerUp.im powerUp.twiddle
    powerUp.cordic (fgyrusInputsAt channel powerUp inputs)

theorem fgyrus_run (t : Nat) :
    (stateAt channel powerUp inputs t).fgyrus =
      FgyrusTop.stateAt powerUp.feed.sampleRealIsZero3d powerUp.real powerUp.im powerUp.twiddle
        powerUp.cordic (fgyrusInputsAt channel powerUp inputs) t := by
  induction t with
  | zero => rfl
  | succ t ih =>
      rw [stateAt_succ, FgyrusTop.stateAt, run_succ, ← FgyrusTop.stateAt, ← ih]
      rfl

def feedInputs (t : Nat) : FftFeed.Inputs :=
  let fgyrus := (stateAt channel powerUp inputs t).fgyrus
  { path := (inputs t).path
    mixed0 := (inputs t).mixed0
    mixed1 := (inputs t).mixed1
    fgyrusEnIh := fgyrus.lb.fgyrusEnOh
    fgyrusPostNormId := fgyrus.lb.fgyrusPostNormOd
    fftRamRdDataId := fftRamRdData fgyrus.engine
    cordicRamRdDataId := fgyrus.cordicRam.q
    fftDataId := fgyrus.engine.wing.dataOd
    fftDataRdyIh := fgyrus.engine.wing.dataRdyOh }

theorem feed_run (t : Nat) :
    FftFeed.stateAt channel powerUp.feed (feedInputs channel powerUp inputs) t =
      { path := (stateAt channel powerUp inputs t).path
        bffr := (stateAt channel powerUp inputs t).bffr
        fsm := (stateAt channel powerUp inputs t).fgyrus.engine.fsm } := by
  induction t with
  | zero => rfl
  | succ t ih =>
      rw [FftFeed.stateAt_succ, ih, stateAt_succ]
      rfl

def samples (t : Nat) : List (BitVec 32) :=
  (PlayPath.emitted powerUp.feed.sram powerUp.feed.header (fun k => (inputs k).path) t).map
    channel.word

def blockNo (start : Nat) : Nat := (samples channel powerUp inputs start).length / 128 - 1

variable {channel powerUp inputs}

theorem engine_eq (t : Nat) :
    engine channel powerUp inputs t = (stateAt channel powerUp inputs t).fgyrus.engine :=
  congrArg FgyrusTop.State.engine (fgyrus_run channel powerUp inputs t).symm

theorem pcmRdy_eq (t : Nat) :
    (engineInputs channel powerUp inputs t).pcmRdyIh =
      Acortex2fgyrusBffr.fgyrusPcmRdyOh (stateAt channel powerUp inputs t).bffr := rfl

theorem enabled_eq (t : Nat) :
    (engineInputs channel powerUp inputs t).fgyrusEnIh =
      (FgyrusTop.stateAt powerUp.feed.sampleRealIsZero3d powerUp.real powerUp.im powerUp.twiddle
        powerUp.cordic (fgyrusInputsAt channel powerUp inputs) t).lb.fgyrusEnOh := rfl

theorem feed_enabled (t : Nat) :
    (feedInputs channel powerUp inputs t).fgyrusEnIh =
      (engineInputs channel powerUp inputs t).fgyrusEnIh := by
  rw [enabled_eq, ← fgyrus_run]
  rfl

theorem path_run (t : Nat) :
    (stateAt channel powerUp inputs t).path =
      PlayPath.stateAt powerUp.feed.sram powerUp.feed.header (fun k => (inputs k).path) t := by
  have run := FftFeed.path_run channel powerUp.feed (feedInputs channel powerUp inputs) t
  rw [feed_run] at run
  exact run

theorem bffr_run (t : Nat) :
    (stateAt channel powerUp inputs t).bffr =
      BffrFill.stateAt powerUp.feed.pcmRam0 powerUp.feed.pcmRam1
        (FftFeed.bffrInputsAt channel powerUp.feed (feedInputs channel powerUp inputs)) t := by
  rw [← FftFeed.bffr_run, feed_run]

theorem feed_samples (t : Nat) :
    FftFeed.samples channel powerUp.feed (feedInputs channel powerUp inputs) t =
      samples channel powerUp inputs t := rfl

theorem frameNo_eq (t : Nat) :
    FftFeed.frameNo channel powerUp.feed (feedInputs channel powerUp inputs) t =
      blockNo channel powerUp inputs t := by
  rw [FftFeed.frameNo, feed_samples, blockNo]

theorem samples_eq (t : Nat) :
    samples channel powerUp inputs t =
      BffrFill.samples
        (FftFeed.bffrInputsAt channel powerUp.feed (feedInputs channel powerUp inputs)) t :=
  FftFeed.samples_eq channel powerUp.feed (feedInputs channel powerUp inputs) t

theorem write_eq (t : Nat) :
    (FftFeed.bffrInputsAt channel powerUp.feed (feedInputs channel powerUp inputs)
        t).acortexPcmWrEnIh =
      (stateAt channel powerUp inputs t).path.prsr.pcmFfWrEnOh := by
  rw [FftFeed.bffrInputsAt, feed_run]
  rfl

/-- An enabled engine starts on the first block, five clocks after its last sample. -/
theorem starts_first {t : Nat} (last : (samples channel powerUp inputs t).length = 127)
    (write : (stateAt channel powerUp inputs t).path.prsr.pcmFfWrEnOh = true)
    (enabled : (engineInputs channel powerUp inputs (t + 5)).fgyrusEnIh = true) :
    Starts (engine channel powerUp inputs) (engineInputs channel powerUp inputs) (t + 5) := by
  have runs : Runs (engine channel powerUp inputs) (engineInputs channel powerUp inputs) :=
    FgyrusTop.engine_runs _ _ _ _ _ _
  rw [← write_eq] at write
  rw [samples_eq] at last
  have waits (k : Nat) (before : k < t + 5) :
      (engineInputs channel powerUp inputs k).pcmRdyIh = false := by
    rw [pcmRdy_eq, bffr_run, ← Bool.not_eq_true]
    intro ready
    obtain ⟨j, rfl, full, write'⟩ := BffrFill.ready_after _ _ _ ready
    have fewer := BffrFill.samples_length_mono
      (FftFeed.bffrInputsAt channel powerUp.feed (feedInputs channel powerUp inputs))
      (show j + 1 ≤ t by omega)
    rw [BffrFill.samples_length_succ, write', last, Bool.toNat_true] at fewer
    omega
  have idle (k : Nat) (before : k ≤ t + 5) :
      (engine channel powerUp inputs k).fsm.fsmPstate = .idle := by
    induction k with
    | zero => rfl
    | succ k ih =>
        rw [runs.fsm k]
        simp only [FgyrusFsm.step, FgyrusFsm.nextPstate, ih (by omega), fsmInputs,
          waits k (by omega), Bool.false_and, Bool.false_eq_true, reduceIte]
  refine ⟨idle _ (Nat.le_refl _), ?_, enabled⟩
  rw [pcmRdy_eq, bffr_run, BffrFill.ready_late, BffrFill.pulseA_iff]
  exact ⟨by rw [last], write⟩

section Frame

variable {start : Nat}
  (starts : Starts (engine channel powerUp inputs) (engineInputs channel powerUp inputs) start)

include starts

theorem leaves_of_starts :
    FftFeed.Leaves channel powerUp.feed (feedInputs channel powerUp inputs) start := by
  have copies : (engine channel powerUp inputs (start + 1)).fsm.fsmPstate = .decimate := by
    obtain ⟨idle, ready, enabled⟩ := starts
    have runs : Runs (engine channel powerUp inputs) (engineInputs channel powerUp inputs) :=
      FgyrusTop.engine_runs _ _ _ _ _ _
    rw [runs.fsm start]
    simp only [FgyrusFsm.step, FgyrusFsm.nextPstate, idle, fsmInputs, ready, enabled, Bool.and_self,
      reduceIte]
  have idle := starts.1
  rw [engine_eq] at copies idle
  rw [FftFeed.Leaves, feed_run, feed_run]
  refine ⟨idle, fun again => ?_⟩
  rw [copies] at again
  cases again

/-- The samples the engine gets are a block of the stream. -/
theorem received_eq (a : BitVec 7) :
    (samples channel powerUp inputs start)[
        128 * blockNo channel powerUp inputs start + a.toNat]? =
      some (received (fgyrusInputsAt channel powerUp inputs) start a) := by
  have leaves := leaves_of_starts starts
  have small := a.reverse.isLt
  have word := FftFeed.leaves_wrReal channel powerUp.feed _ leaves a.reverse
  have copying := FftFeed.leaves_copying channel powerUp.feed _ leaves (a.reverse.toNat + 2)
    (by omega)
  have registered : (FftFeed.stateAt channel powerUp.feed (feedInputs channel powerUp inputs)
      (start + 4 + a.reverse.toNat)).fsm.fftRamWrRealDataOd =
        received (fgyrusInputsAt channel powerUp inputs) start a := by
    have decimate := copying.pstate
    rw [feed_run] at decimate
    dsimp only at decimate
    rw [show start + 4 + a.reverse.toNat = start + 1 + (a.reverse.toNat + 2) + 1 by omega,
      FftFeed.fsm_succ, FftFeed.fsmInputs, feed_run]
    simp only [FgyrusFsm.step, FgyrusFsm.nextFftRamWrRealData, decimate]
    rfl
  rw [registered, BitVec.reverse_reverse_eq] at word
  exact word

theorem block_complete {earlier : Nat}
    (before : Starts (engine channel powerUp inputs) (engineInputs channel powerUp inputs) earlier)
    (order : earlier < start) :
    blockNo channel powerUp inputs earlier < blockNo channel powerUp inputs start := by
  rw [← frameNo_eq, ← frameNo_eq]
  exact FftFeed.frameNo_lt channel powerUp.feed _
    (leaves_of_starts before) (leaves_of_starts starts) order

end Frame

end Run

/-- In every run, with any file and any other traffic, while the host leaves the windows of
the RAMs and the post-normalisation alone: every frame of the engine transforms a whole
block of 128 consecutive samples of the parser, later frames transform later blocks, and
after each frame the result RAM holds the magnitudes of the transform of its block, until
the next ABS pass. -/
theorem spectra_of_stream (channel : Channel) (powerUp : PowerUp) (inputs : Nat → Inputs)
    (undisturbed : Undisturbed powerUp.feed.sampleRealIsZero3d powerUp.real powerUp.im
      powerUp.twiddle powerUp.cordic (fgyrusInputsAt channel powerUp inputs))
    (nonzero : ∀ t address, (stateAt channel powerUp inputs t).fgyrus.cordicRam.memory address ≠ 0)
    (contents : BitVec 7 → BitVec 32) (start : Nat)
    (starts : Starts (engine channel powerUp inputs) (engineInputs channel powerUp inputs) start) :
    let m := blockNo channel powerUp inputs start
    let first := (stateAt channel powerUp inputs (start + 1)).fgyrus
    (∀ earlier < start,
        Starts (engine channel powerUp inputs) (engineInputs channel powerUp inputs) earlier →
          blockNo channel powerUp inputs earlier < m) ∧
      ∃ block : BitVec 7 → BitVec 32,
        (∀ a, (samples channel powerUp inputs start)[128 * m + a.toNat]? = some (block a)) ∧
        ∀ gap, (∀ k < gap,
            (engine channel powerUp inputs (start + 1 + busyClocks + k)).fsm.fsmPstate ≠ .abs) →
          ∀ address, resultRam contents (engine channel powerUp inputs)
              (start + 1 + busyClocks + 1 + gap) address =
            Magnitude.result first.cordicRam.memory first.lb.fgyrusPostNormOd
              (FftReference.fft first.engine.twiddleRam.memory block address) := by
  intro m first
  refine ⟨fun earlier order before => block_complete starts before order,
    received (fgyrusInputsAt channel powerUp inputs) start, received_eq starts, ?_⟩
  intro gap other address
  have nonzero := nonzero (start + 1)
  rw [fgyrus_run] at nonzero
  have kept := undisturbed.resultRam_kept starts (FgyrusTop.received_pcm starts) nonzero contents
    address gap other
  rw [frameResult, ← fgyrus_run, BitVec.ofNat_toNat, BitVec.setWidth_eq] at kept
  exact kept

/-! ### A ramp in a file -/

def rampItem : WavItem :=
  { noSamples := 128
    chunkSize := 292
    subchunk1NoChnls := 1
    subchunk1SampleRate := 44100
    subchunk1ByteRate := 88200
    subchunk1BlockAlign := 2
    subchunk1BitsPerSample := 16
    subchunk2Size := 256
    data := (List.range 128).map (BitVec.ofNat 32) }

def cleared : PowerUp :=
  { feed :=
      { sram := fun _ => 0
        header := fun _ => 0
        pcmRam0 := fun _ => 0
        pcmRam1 := fun _ => 0
        sampleRealIsZero3d := false }
    real := fun _ => 0
    im := fun _ => 0
    twiddle := fun _ => 0x01000000
    cordic := fun _ => 1 }

/-- The host enables the engine, and the file is streamed at full speed. -/
def fileInputs (t : Nat) : Inputs :=
  { path := PlayPath.feed rampItem.getRaw t
    mixed0 := 0
    mixed1 := 0
    fgyrus := FgyrusTop.rampInputs (fun _ => false) t }

theorem file_control : FgyrusTop.ControlOnly (fgyrusInputsAt .left cleared fileInputs) :=
  { addr := fun _ => rfl
    wrEn := rfl
    wrData := fun _ => rfl }

/-- The path of the file with the queue in place of the SRAM. -/
def fileAbstract : Nat → PlayPath.Abstract :=
  PlayPath.abstractAt cleared.feed.header (PlayPath.feed rampItem.getRaw)

theorem file_samples (t : Nat) :
    samples .left cleared fileInputs t =
      (collect (fun k => (fileAbstract k).prsr.pcm.written) t).map Channel.left.word := by
  change (PlayPath.emitted _ _ (PlayPath.feed rampItem.getRaw) t).map _ = _
  rw [PlayPath.emitted_abstract (PlayPath.feed_quiet _)]
  rfl

theorem file_prsr (t : Nat) :
    (stateAt .left cleared fileInputs t).path.prsr = (fileAbstract t).prsr := by
  rw [path_run]
  exact (PlayPath.abstractAt_shown _ _ (PlayPath.feed_quiet _) t).2

theorem file_written :
    (collect (fun k => (fileAbstract k).prsr.pcm.written) 332).length = 127 ∧
      (fileAbstract 332).prsr.pcmFfWrEnOh = true ∧
      (collect (fun k => (fileAbstract k).prsr.pcm.written) 337).map Channel.left.word =
        (List.range 128).map (BitVec.ofNat 32) := by
  decide +kernel

theorem file_filled :
    (samples .left cleared fileInputs 332).length = 127 ∧
      (stateAt .left cleared fileInputs 332).path.prsr.pcmFfWrEnOh = true := by
  rw [file_samples, List.length_map, file_prsr]
  exact ⟨file_written.1, file_written.2.1⟩

theorem file_starts :
    Starts (engine .left cleared fileInputs) (engineInputs .left cleared fileInputs) 337 :=
  starts_first file_filled.1 file_filled.2 ((enabled_eq 337).trans (file_control.enabled 336))

theorem file_block : blockNo .left cleared fileInputs 337 = 0 := by
  rw [blockNo, file_samples, file_written.2.2, List.length_map, List.length_range]

/-- The frame of the file is copied whole. -/
theorem frames_not_torn_file :
    FftFeed.Leaves .left cleared.feed (feedInputs .left cleared fileInputs) 337 ∧
      FftFeed.Intact .left cleared.feed (feedInputs .left cleared fileInputs) 337 0 := by
  obtain ⟨idle, -, enabled⟩ := file_starts
  have leaves : FftFeed.Leaves .left cleared.feed (feedInputs .left cleared fileInputs) 337 := by
    refine FftFeed.leaves_of_filled .left cleared.feed _ ?_ ?_ ?_ ?_
    · rw [feed_samples, file_filled.1]
    · rw [feed_run]
      exact file_filled.2
    · rw [feed_run]
      rw [engine_eq] at idle
      exact idle
    · rw [feed_enabled]
      exact enabled
  have block :
      FftFeed.frameNo .left cleared.feed (feedInputs .left cleared fileInputs) 337 = 0 := by
    rw [frameNo_eq]
    exact file_block
  have intact := (FftFeed.frames_not_torn .left cleared.feed _).1 337 leaves
  rw [block] at intact
  exact ⟨leaves, intact⟩

theorem spectra_of_file :
    resultRam (fun _ => 0) (engine .left cleared fileInputs) (337 + 1 + busyClocks + 1) =
      fun address => Magnitude.result (fun _ => 1) 0
        (FftReference.fft (fun _ => 0x01000000) (fun index => index.setWidth 32) address) := by
  have nonzero (t : Nat) (address : BitVec 8) :
      (stateAt .left cleared fileInputs t).fgyrus.cordicRam.memory address ≠ 0 := by
    rw [fgyrus_run]
    exact file_control.nonzero (by decide) t address
  obtain ⟨-, block, same, results⟩ := spectra_of_stream .left cleared fileInputs
    file_control.undisturbed nonzero (fun _ => 0) 337 file_starts
  have ramp : block = fun index => index.setWidth 32 := by
    funext index
    have inside := index.isLt
    have word := same index
    rw [file_block, file_samples, file_written.2.2, Nat.mul_zero, Nat.zero_add, List.getElem?_map,
      List.getElem?_range inside, Option.map_some, Option.some_inj] at word
    rw [← word, ← BitVec.ofNat_toNat]
  funext address
  have result := results 0 (fun _ before => absurd before (Nat.not_lt_zero _)) address
  rw [fgyrus_run, (file_control.tables _).1, file_control.postNorm, ← FgyrusTop.engineAt,
    (file_control.tables _).2, ramp] at result
  exact result

end Synesthesia.SpectrumPath
