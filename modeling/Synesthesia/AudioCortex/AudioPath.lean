/-
From the Avalon-ST port to the pins of the codec: SRAM path, WAV parser, PCM
FIFOs and serialiser of `acortex_top` in one.

Seen from the file, the system is the path of the parser; seen from the codec, it
is the pair of PCM FIFOs.  Both views run in lockstep with it.
-/

import Synesthesia.AudioCortex.DacMonitor
import Synesthesia.AudioCortex.PcmPlay
import Synesthesia.AudioCortex.Playlist

namespace Synesthesia.AudioPath

open Synesthesia.Rtl
open Synesthesia.DacMonitor (onWire)
open Synesthesia.Wm8731DrvrDac (Begins Configured pairOf width)

structure State where
  path : PlayPath.State
  pcmFfLchnl : ShowAheadFifo 8 32
  pcmFfRchnl : ShowAheadFifo 8 32
  dac : Wm8731DrvrDac.State

structure Inputs where
  avStDataId : BitVec 16
  avStValidIh : Bool
  sramMmRdEn : Bool
  sramMmWrEn : Bool
  sramMmAddr : BitVec 18
  sramMmWrData : BitVec 16
  blkPrsrRdEn : Bool
  blkPrsrWrEn : Bool
  blkDacRdEn : Bool
  blkDacWrEn : Bool
  blkAddr : BitVec 8
  blkWrData : BitVec 16
  hdrRamMixed : BitVec 16
  audAdcDatId : Bool

structure PowerUp where
  sram : BitVec 18 → BitVec 16
  header : BitVec 8 → BitVec 16
  left : BitVec 8 → BitVec 32
  right : BitVec 8 → BitVec 32

def reset (powerUp : PowerUp) : State :=
  { path := PlayPath.reset powerUp.sram powerUp.header
    pcmFfLchnl := ShowAheadFifo.init powerUp.left
    pcmFfRchnl := ShowAheadFifo.init powerUp.right
    dac := Wm8731DrvrDac.reset }

def pcmView (state : State) : PcmPlay.State :=
  { arb := state.path.sram.arb
    prsr := state.path.prsr
    pcmFfLchnl := state.pcmFfLchnl
    pcmFfRchnl := state.pcmFfRchnl
    dac := state.dac }

def pathInputs (state : State) (inputs : Inputs) : PlayPath.Inputs :=
  { avStDataId := inputs.avStDataId
    avStValidIh := inputs.avStValidIh
    sramMmRdEn := inputs.sramMmRdEn
    sramMmWrEn := inputs.sramMmWrEn
    sramMmAddr := inputs.sramMmAddr
    sramMmWrData := inputs.sramMmWrData
    pcmFfAfullC := PcmPlay.pcmFfAfullC (pcmView state)
    blkPrsrRdEn := inputs.blkPrsrRdEn
    blkPrsrWrEn := inputs.blkPrsrWrEn
    blkAddr := inputs.blkAddr
    blkWrData := inputs.blkWrData
    hdrRamMixed := inputs.hdrRamMixed }

def dacInputs (state : State) (inputs : Inputs) : Wm8731DrvrDac.Inputs :=
  { lbRdEnIh := inputs.blkDacRdEn
    lbWrEnIh := inputs.blkDacWrEn
    lbAddrId := inputs.blkAddr
    lbWrDataId := inputs.blkWrData
    pcmFfDataValidIh := PcmPlay.pcmFfDacDataValidC (pcmView state)
    pcmFfLdataId := state.pcmFfLchnl.q
    pcmFfRdataId := state.pcmFfRchnl.q
    audAdcDatId := inputs.audAdcDatId }

def step (state : State) (inputs : Inputs) : State :=
  { path := PlayPath.step state.path (pathInputs state inputs)
    pcmFfLchnl :=
      state.pcmFfLchnl.step state.path.prsr.pcmFfWrEnOh state.path.prsr.pcmFfLdataOd
        state.dac.pcmFfRdAckOh
    pcmFfRchnl :=
      state.pcmFfRchnl.step state.path.prsr.pcmFfWrEnOh state.path.prsr.pcmFfRdataOd
        state.dac.pcmFfRdAckOh
    dac := Wm8731DrvrDac.step state.dac (dacInputs state inputs) }

def pcmInputs (state : State) (inputs : Inputs) : PcmPlay.Inputs :=
  { lbStDataId := inputs.avStDataId
    lbStValidIh := inputs.avStValidIh
    lbMmRdEnIh := inputs.sramMmRdEn
    lbMmWrEnIh := inputs.sramMmWrEn
    lbMmAddrId := inputs.sramMmAddr
    lbMmWrDataId := inputs.sramMmWrData
    sramFfRdAddrId := SramFfCntrlr.sramRdAddrOd state.path.sram.ff
    sramFfWrAddrId := SramFfCntrlr.sramWrAddrOd state.path.sram.ff
    sramFfFullIh := state.path.sram.ff.sramFullOh
    sramFfEmptyIh := state.path.sram.ff.sramEmptyOh
    sramRdDataId := SramPath.sramRdDataId state.path.sram
    blkPrsrRdEn := inputs.blkPrsrRdEn
    blkPrsrWrEn := inputs.blkPrsrWrEn
    blkDacRdEn := inputs.blkDacRdEn
    blkDacWrEn := inputs.blkDacWrEn
    blkAddr := inputs.blkAddr
    blkWrData := inputs.blkWrData
    hdrRamMixed := inputs.hdrRamMixed
    audAdcDatId := inputs.audAdcDatId }

theorem pcmView_step (state : State) (inputs : Inputs) :
    pcmView (step state inputs) = PcmPlay.step (pcmView state) (pcmInputs state inputs) := rfl

section Run

variable (powerUp : PowerUp) (inputs : Nat → Inputs)

def stateAt : Nat → State := run step (reset powerUp) inputs

def pathInputsAt (t : Nat) : PlayPath.Inputs := pathInputs (stateAt powerUp inputs t) (inputs t)

def pcmInputsAt (t : Nat) : PcmPlay.Inputs := pcmInputs (stateAt powerUp inputs t) (inputs t)

def dacInputsAt (t : Nat) : Wm8731DrvrDac.Inputs :=
  dacInputs (stateAt powerUp inputs t) (inputs t)

def accepts (t : Nat) : Bool :=
  SramPath.stAccept (stateAt powerUp inputs t).path.sram
    (PlayPath.sramInputs (stateAt powerUp inputs t).path (pathInputsAt powerUp inputs t))

def accepted : Nat → List (BitVec 16) :=
  collect fun t => strobed (accepts powerUp inputs t) (inputs t).avStDataId

/-- Frames the codec has received up to cycle `t`. -/
def decoded (wide : Bool) (t : Nat) : List (BitVec 32 × BitVec 32) :=
  (DacMonitor.watch (width wide)
    (fun k => DacMonitor.pins (stateAt powerUp inputs k).dac) t).frames

/-- Both FIFOs are empty, no word is on its way from the SRAM, and the serialiser
is idle. -/
structure Drained (state : State) : Prop where
  sram : state.path.sram.ff.sramEmptyOh = true
  left : state.pcmFfLchnl.empty = true
  right : state.pcmFfRchnl.empty = true
  issued : state.path.sram.arb.arbImRdReq1d = false
  driven : state.path.sram.arb.arbImRdReq2d = false
  valid : state.path.sram.arb.imRdValidOh = false
  idle : state.dac.fsmPstate = .idle

/-- A file is played: its words are offered one by one when they can be taken,
the parser is enabled at some time, and from cycle `on` the driver runs with the
width of the file and a sample period that fits a frame. -/
structure Plays (item : WavItem) (on : Nat) : Prop where
  wellFormed : item.WellFormed
  quiet : ∀ t, (inputs t).sramMmRdEn = false ∧ (inputs t).sramMmWrEn = false
  offered : ∀ t, (inputs t).avStValidIh = true → accepts powerUp inputs t = true
  streamed : ∀ t, accepted powerUp inputs t <+: item.getRaw
  parser : ∃ first, ∀ t, first ≤ t → (stateAt powerUp inputs t).path.prsr.prsrEnF = true
  adc : ∀ t, (stateAt powerUp inputs t).dac.adcDrvrEnF = false
  before : ∀ t, t < on → (stateAt powerUp inputs t).dac.dacDrvrEnF = false
  dac : ∀ t, on ≤ t → (stateAt powerUp inputs t).dac.dacDrvrEnF = true
  bps : ∀ t, on ≤ t → (stateAt powerUp inputs t).dac.bpsF = item.wide
  fsDiv : ∀ t, on ≤ t →
    2 * width item.wide + 1 ≤ (stateAt powerUp inputs t).dac.fsDivValF.toNat ∧
      (stateAt powerUp inputs t).dac.fsDivValF.toNat ≤ 1023

/-! ### The two views -/

theorem stateAt_succ (t : Nat) :
    stateAt powerUp inputs (t + 1) = step (stateAt powerUp inputs t) (inputs t) := rfl

theorem path_run (t : Nat) :
    (stateAt powerUp inputs t).path =
      PlayPath.stateAt powerUp.sram powerUp.header (pathInputsAt powerUp inputs) t := by
  induction t with
  | zero => rfl
  | succ t ih =>
      rw [stateAt_succ, PlayPath.stateAt, run_succ, ← PlayPath.stateAt, ← ih]
      rfl

theorem pcm_run (t : Nat) :
    pcmView (stateAt powerUp inputs t) =
      PcmPlay.stateAt powerUp.header powerUp.left powerUp.right (pcmInputsAt powerUp inputs)
        t := by
  induction t with
  | zero => rfl
  | succ t ih =>
      rw [stateAt_succ, pcmView_step, ih, PcmPlay.stateAt, run_succ]
      rfl

theorem dac_run (t : Nat) :
    (stateAt powerUp inputs t).dac = Wm8731DrvrDac.stateAt (dacInputsAt powerUp inputs) t := by
  induction t with
  | zero => rfl
  | succ t ih =>
      rw [Wm8731DrvrDac.stateAt_succ, ← ih]
      rfl

theorem accepted_path (t : Nat) :
    accepted powerUp inputs t =
      PlayPath.accepted powerUp.sram powerUp.header (pathInputsAt powerUp inputs) t := by
  induction t with
  | zero => rfl
  | succ t ih =>
      rw [accepted, collect_succ, ← accepted, ih, PlayPath.accepted, collect_succ,
        ← PlayPath.accepted, ← path_run]
      rfl

theorem written_path (t : Nat) :
    PcmPlay.written powerUp.header powerUp.left powerUp.right (pcmInputsAt powerUp inputs) t =
      PlayPath.emitted powerUp.sram powerUp.header (pathInputsAt powerUp inputs) t := by
  induction t with
  | zero => rfl
  | succ t ih =>
      rw [PcmPlay.written, collect_succ, ← PcmPlay.written, ih, PlayPath.emitted, collect_succ,
        ← PlayPath.emitted, ← path_run, ← pcm_run]
      rfl

theorem decoded_monitor (wide : Bool) (t : Nat) :
    decoded powerUp inputs wide t =
      (DacMonitor.monitorAt wide (dacInputsAt powerUp inputs) t).frames := by
  have same : (fun k => DacMonitor.pins (stateAt powerUp inputs k).dac) =
      fun k => DacMonitor.pins (Wm8731DrvrDac.stateAt (dacInputsAt powerUp inputs) k) := by
    funext k
    rw [dac_run]
  rw [decoded, same]
  rfl

/-! ### Frames and pairs -/

def taken : Nat → List (BitVec 32 × BitVec 32) :=
  PcmPlay.taken powerUp.header powerUp.left powerUp.right (pcmInputsAt powerUp inputs)

theorem taken_succ (t : Nat) :
    taken powerUp inputs (t + 1) =
      taken powerUp inputs t ++
        strobed (stateAt powerUp inputs t).dac.pcmFfRdAckOh
          ((stateAt powerUp inputs t).pcmFfLchnl.q, (stateAt powerUp inputs t).pcmFfRchnl.q) := by
  rw [taken, PcmPlay.taken, collect_succ, ← PcmPlay.taken, ← pcm_run]
  rfl

theorem taken_quiet {t : Nat} : ∀ later,
    (∀ i < later, (stateAt powerUp inputs (t + i)).dac.pcmFfRdAckOh = false) →
      taken powerUp inputs (t + later) = taken powerUp inputs t := by
  intro later
  induction later with
  | zero => exact fun _ => rfl
  | succ later ih =>
      intro none
      rw [← Nat.add_assoc, taken_succ, none later (Nat.lt_succ_self later), strobed_false,
        List.append_nil]
      exact ih fun i inside => none i (Nat.lt_succ_of_lt inside)

variable {powerUp inputs} {item : WavItem} {on : Nat}

theorem ack_at {t : Nat} (ack : (stateAt powerUp inputs t).dac.pcmFfRdAckOh = true) :
    ∃ s, Begins (dacInputsAt powerUp inputs) s ∧ t = s + 8 := by
  rw [dac_run] at ack
  exact Wm8731DrvrDac.ack_at ack

theorem Plays.begins (plays : Plays powerUp inputs item on) {s : Nat}
    (begins : Begins (dacInputsAt powerUp inputs) s) :
    on ≤ s ∧ PcmPlay.pcmFfDacDataValidC (pcmView (stateAt powerUp inputs s)) = true := by
  obtain ⟨idle, started⟩ := begins
  have adc := plays.adc s
  have before := plays.before s
  rw [Wm8731DrvrDac.stateAt_succ] at started
  simp only [Wm8731DrvrDac.step, Wm8731DrvrDac.nextPstate, idle] at started
  rw [← dac_run, adc, Bool.or_false] at started
  split at started
  · split at started
    · rename_i enabled
      rw [Bool.and_eq_true] at enabled
      refine ⟨Nat.le_of_not_lt fun early => ?_, enabled.2⟩
      rw [before early] at enabled
      cases enabled.1
    · cases started
  · cases started

theorem Plays.configured (plays : Plays powerUp inputs item on) (s : Nat)
    (begins : Begins (dacInputsAt powerUp inputs) s) :
    Configured (dacInputsAt powerUp inputs) item.wide s (s + 8 + 16 * width item.wide) := by
  obtain ⟨late, _⟩ := plays.begins begins
  intro t after _
  rw [← dac_run]
  exact ⟨plays.dac t (by omega), plays.bps t (by omega)⟩

theorem Plays.acked (plays : Plays powerUp inputs item on) {s : Nat}
    (begins : Begins (dacInputsAt powerUp inputs) s) :
    (stateAt powerUp inputs (s + 8)).dac.pcmFfRdAckOh = true := by
  obtain ⟨late, valid⟩ := plays.begins begins
  have phase := begins.phase
  have none : ∀ i < 7, (stateAt powerUp inputs (s + i)).dac.pcmFfRdAckOh = false := by
    intro i inside
    rw [← Bool.not_eq_true]
    intro ack
    obtain ⟨s', begins', same⟩ := ack_at ack
    have phase' := begins'.phase
    have started := begins'.started (i := 7) (by decide)
    rw [show s' + 1 + 7 = s by omega, begins.1] at started
    cases started
  have kept := taken_quiet powerUp inputs 7 none
  obtain ⟨pairs, split, lockstep⟩ := PcmPlay.lockstep_at powerUp.header powerUp.left powerUp.right
    (pcmInputsAt powerUp inputs) s
  obtain ⟨pairs', split', lockstep'⟩ := PcmPlay.lockstep_at powerUp.header powerUp.left
    powerUp.right (pcmInputsAt powerUp inputs) (s + 7)
  rw [← pcm_run] at lockstep lockstep'
  have still : PcmPlay.pcmFfDacDataValidC (pcmView (stateAt powerUp inputs (s + 7))) = true := by
    rw [lockstep.valid, Bool.not_eq_true', List.isEmpty_eq_false_iff] at valid
    rw [lockstep'.valid, Bool.not_eq_true', List.isEmpty_eq_false_iff]
    rintro rfl
    have more := (collect_isPrefix (fun t => (PcmPlay.stateAt powerUp.header powerUp.left
      powerUp.right (pcmInputsAt powerUp inputs) t).prsr.pcm.written) s 7).length_le
    rw [← PcmPlay.written, split, split', List.append_nil, ← taken, kept, List.length_append]
      at more
    exact valid (List.length_eq_zero_iff.mp (by omega))
  have started := begins.started (i := 6) (by decide)
  have ring := Wm8731DrvrDac.ring_eq (dacInputsAt powerUp inputs) (s + 7) 6 (by decide)
  rw [decide_eq_true (by omega)] at ring
  rw [show s + 1 + 6 = s + 7 by omega] at started
  rw [← dac_run] at started ring
  have request : (stateAt powerUp inputs (s + 8)).dac.pcmFfRdAckOh =
      Wm8731DrvrDac.nextPcmFfRdAck (stateAt powerUp inputs (s + 7)).dac
        (dacInputsAt powerUp inputs (s + 7)) := rfl
  rw [request, Wm8731DrvrDac.nextPcmFfRdAck, if_pos started, ring, plays.dac (s + 7) (by omega),
    Bool.and_true, Bool.and_true]
  exact still

theorem Plays.begun_eq (plays : Plays powerUp inputs item on) (t : Nat) :
    DacMonitor.begun (dacInputsAt powerUp inputs) t = taken powerUp inputs (t + 8) := by
  induction t with
  | zero =>
      refine (taken_quiet powerUp inputs (t := 0) 8 fun i inside => ?_).symm
      rw [← Bool.not_eq_true]
      intro ack
      obtain ⟨s, _, same⟩ := ack_at ack
      omega
  | succ t ih =>
      rw [DacMonitor.begun, collect_succ, ← DacMonitor.begun, ih,
        show t + 1 + 8 = t + 8 + 1 by omega, taken_succ powerUp inputs (t + 8)]
      by_cases begins : Begins (dacInputsAt powerUp inputs) t
      · have ack := plays.acked begins
        have pair : pairOf (dacInputsAt powerUp inputs) t =
            ((stateAt powerUp inputs (t + 8)).pcmFfLchnl.q,
              (stateAt powerUp inputs (t + 8)).pcmFfRchnl.q) := by
          rw [pairOf, ← dac_run, if_pos ack]
          rfl
        rw [decide_eq_true begins, ack, pair]
      · have quiet : (stateAt powerUp inputs (t + 8)).dac.pcmFfRdAckOh = false := by
          rw [← Bool.not_eq_true]
          intro ack
          obtain ⟨s, begins', same⟩ := ack_at ack
          rw [show s = t by omega] at begins'
          exact begins begins'
        rw [decide_eq_false begins, quiet]
        rfl

theorem Plays.begun_idle (plays : Plays powerUp inputs item on) {t : Nat}
    (idle : (stateAt powerUp inputs t).dac.fsmPstate = .idle) :
    DacMonitor.begun (dacInputsAt powerUp inputs) t = taken powerUp inputs t := by
  rw [plays.begun_eq]
  refine taken_quiet powerUp inputs 8 fun i inside => ?_
  rw [← Bool.not_eq_true]
  intro ack
  obtain ⟨s, begins, same⟩ := ack_at ack
  have started := begins.started (i := t - s - 1)
  rcases Nat.lt_or_ge s t with earlier | later
  · have busy := started (by omega)
    rw [show s + 1 + (t - s - 1) = t by omega, ← dac_run, idle] at busy
    cases busy
  · omega

/-! ### The frames of the file -/

theorem steady_single (item : WavItem) : PlayPath.Steady [item] := by
  intro past played future split wide stereo
  have empty : past = [] := by
    cases past with
    | nil => rfl
    | cons head tail =>
        have sizes := congrArg List.length split
        simp only [List.length_cons, List.length_nil, List.length_append] at sizes
        omega
  subst empty
  rfl

theorem Plays.hostQuiet (plays : Plays powerUp inputs item on) (t : Nat) :
    PlayPath.HostQuiet (pathInputsAt powerUp inputs t) := plays.quiet t

theorem Plays.progress (plays : Plays powerUp inputs item on) (t : Nat) :
    PlayPath.Progress powerUp.sram powerUp.header (pathInputsAt powerUp inputs) [item] t := by
  refine PlayPath.run_progress ?_ plays.hostQuiet (steady_single item) (fun t => ?_) t
  · intro played inside
    rw [List.mem_singleton.mp inside]
    exact plays.wellFormed
  · rw [← accepted_path, PlayPath.stream, List.flatMap_singleton]
    exact plays.streamed t

theorem Plays.emitted_isPrefix (plays : Plays powerUp inputs item on) (t : Nat) :
    PlayPath.emitted powerUp.sram powerUp.header (pathInputsAt powerUp inputs) t <+:
      item.frames := by
  cases t with
  | zero => exact List.nil_prefix
  | succ t =>
      have wellFormed : ∀ played ∈ [item], played.WellFormed := by
        intro played inside
        rw [List.mem_singleton.mp inside]
        exact plays.wellFormed
      have played := (plays.progress t).emitted_isPrefix wellFormed
      rw [List.flatMap_singleton] at played
      exact played

theorem Plays.taken_isPrefix (plays : Plays powerUp inputs item on) (t : Nat) :
    taken powerUp inputs t <+: item.frames := by
  obtain ⟨pairs, split, _⟩ := PcmPlay.lockstep_at powerUp.header powerUp.left powerUp.right
    (pcmInputsAt powerUp inputs) t
  rw [written_path] at split
  have first : taken powerUp inputs t <+:
      PlayPath.emitted powerUp.sram powerUp.header (pathInputsAt powerUp inputs) t := by
    rw [split]
    exact List.prefix_append _ _
  exact first.trans (plays.emitted_isPrefix t)

/-- With nothing left before the FIFOs, and no frame at their input, all frames of
the file were written. -/
theorem Plays.emitted_all (plays : Plays powerUp inputs item on) {t : Nat}
    (all : accepted powerUp inputs t = item.getRaw)
    (drained : Drained (stateAt powerUp inputs t))
    (noFrame : (stateAt powerUp inputs t).path.prsr.pcmFfWrEnOh = false) :
    PlayPath.emitted powerUp.sram powerUp.header (pathInputsAt powerUp inputs) t =
      item.frames := by
  obtain ⟨shown, same⟩ := PlayPath.abstractAt_shown powerUp.sram powerUp.header plays.hostQuiet t
  have conserved := PlayPath.accepted_eq powerUp.sram powerUp.header plays.hostQuiet t
  rw [← path_run] at shown same
  have unread : (PlayPath.abstractAt powerUp.header (pathInputsAt powerUp inputs) t).queue.unread =
      [] := by
    rw [← List.isEmpty_iff, ← shown.empty]
    exact drained.sram
  have pending : SramQueue.pending
      (PlayPath.abstractAt powerUp.header (pathInputsAt powerUp inputs) t).queue = [] := by
    rw [SramQueue.pending, ← shown.valid, drained.valid, shown.driven, drained.driven,
      shown.issued, drained.issued, unread]
    rfl
  rw [← accepted_path, all, pending, List.append_nil] at conserved
  have written : PlayPath.emitted powerUp.sram powerUp.header (pathInputsAt powerUp inputs)
      (t + 1) = item.frames := by
    cases plays.progress t with
    | done received frames last wave =>
        rw [List.flatMap_singleton] at frames
        exact frames
    | within past played future k bus split place =>
        have single : past = [] ∧ played = item := by
          cases past with
          | nil =>
              rw [List.nil_append] at split
              exact ⟨rfl, (List.cons.inj split).1.symm⟩
          | cons head tail =>
              have sizes := congrArg List.length split
              simp only [List.length_cons, List.length_nil, List.length_append] at sizes
              omega
        obtain ⟨rfl, rfl⟩ := single
        have sizes := congrArg List.length place.received
        have within := place.playing.tracks.within
        rw [← conserved, PlayPath.stream, List.flatMap_nil, List.nil_append, List.length_take,
          WavItem.getRaw_length] at sizes
        omega
  rw [PlayPath.emitted_succ plays.hostQuiet, ← same] at written
  have silent : (stateAt powerUp inputs t).path.prsr.pcm.written = [] := by
    rw [WavPrsr.Pcm.written, WavPrsr.Regs.pcm, noFrame]
    rfl
  rw [silent, List.append_nil] at written
  exact written

end Run

/-- From the file to the codec: in every run that plays a file, the frames the
codec has received are at every moment the first frames of the file, each cut to
the sample width; and when all words have been taken over, both FIFOs are empty,
no word is on its way, the serialiser is idle and the parser is not just handing
over a frame, they are all of them. -/
theorem audioPath_plays (powerUp : PowerUp) (inputs : Nat → Inputs) (item : WavItem) (on : Nat)
    (plays : Plays powerUp inputs item on) :
    (∀ t, decoded powerUp inputs item.wide t <+: item.frames.map (onWire item.wide)) ∧
      ∀ t, accepted powerUp inputs t = item.getRaw → Drained (stateAt powerUp inputs t) →
        (stateAt powerUp inputs t).path.prsr.pcmFfWrEnOh = false →
        decoded powerUp inputs item.wide t = item.frames.map (onWire item.wide) := by
  refine ⟨fun t => ?_, fun t all drained noFrame => ?_⟩
  · rw [decoded_monitor]
    refine (DacMonitor.frames_isPrefix plays.configured t).trans ?_
    rw [plays.begun_eq]
    exact (plays.taken_isPrefix (t + 8)).map _
  · have idle := drained.idle
    rw [dac_run] at idle
    rw [decoded_monitor, DacMonitor.frames_idle plays.configured idle,
      plays.begun_idle drained.idle]
    obtain ⟨pairs, split, lockstep⟩ := PcmPlay.lockstep_at powerUp.header powerUp.left
      powerUp.right (pcmInputsAt powerUp inputs) t
    rw [← pcm_run] at lockstep
    have empty : pairs = [] := by
      have left := lockstep.left.empty_eq
      rw [show (pcmView (stateAt powerUp inputs t)).pcmFfLchnl.empty = true from drained.left,
        eq_comm, List.isEmpty_iff, List.map_eq_nil_iff] at left
      exact left
    rw [written_path, plays.emitted_all all drained noFrame, empty, List.append_nil] at split
    rw [split]
    rfl

/-! ### One stereo frame -/

/-- The file of one stereo frame is streamed at full speed.  The host enables the
parser, sets the shortest sample period and then enables the driver. -/
def oneFrame (t : Nat) : Inputs :=
  { avStDataId := PlayPath.stereoItem.getRaw.getD (PlayPath.feedIndex t) 0
    avStValidIh :=
      decide (t % 34 < 16 ∧ PlayPath.feedIndex t < PlayPath.stereoItem.getRaw.length)
    sramMmRdEn := false
    sramMmWrEn := false
    sramMmAddr := 0
    sramMmWrData := 0
    blkPrsrRdEn := false
    blkPrsrWrEn := decide (t = 0)
    blkDacRdEn := false
    blkDacWrEn := decide (t = 1 ∨ t = 2)
    blkAddr := if t = 1 then AcortexRegMap.dacDrvrFsDivRegAddr else 0
    blkWrData := if t = 0 then 1 else if t = 1 then 65 else 5
    hdrRamMixed := 0
    audAdcDatId := false }

def cleared : PowerUp :=
  { sram := fun _ => 0
    header := fun _ => 0
    left := fun _ => 0
    right := fun _ => 0 }

theorem oneFrame_feeds :
    PlayPath.Feeds PlayPath.stereoItem.getRaw (pathInputsAt cleared oneFrame) where
  quiet := fun _ => ⟨rfl, rfl⟩
  data := fun _ => rfl
  valid := fun _ => rfl

theorem oneFrame_configured (i : Nat) :
    (stateAt cleared oneFrame (i + 3)).path.prsr.prsrEnF = true ∧
      (stateAt cleared oneFrame (i + 3)).dac.dacDrvrEnF = true ∧
      (stateAt cleared oneFrame (i + 3)).dac.adcDrvrEnF = false ∧
      (stateAt cleared oneFrame (i + 3)).dac.bpsF = true ∧
      (stateAt cleared oneFrame (i + 3)).dac.fsDivValF = 65 := by
  induction i with
  | zero => exact ⟨rfl, rfl, rfl, rfl, rfl⟩
  | succ i ih =>
      have parser : (oneFrame (i + 3)).blkPrsrWrEn = false := by
        rw [oneFrame, decide_eq_false_iff_not]
        omega
      have driver : (oneFrame (i + 3)).blkDacWrEn = false := by
        rw [oneFrame, decide_eq_false_iff_not]
        omega
      rw [Nat.add_right_comm, stateAt_succ]
      simp only [step, PlayPath.step, WavPrsr.step, PlayPath.prsrInputs, pathInputs, parser,
        Wm8731DrvrDac.step, Wm8731DrvrDac.lbWrites, dacInputs, driver, Bool.false_and,
        Bool.false_eq_true, false_and, reduceIte]
      exact ih

theorem oneFrame_plays : Plays cleared oneFrame PlayPath.stereoItem 3 := by
  have fits : PlayPath.stereoItem.getRaw.length ≤ 2 ^ 18 := by
    decide
  have later : ∀ t, 3 ≤ t → ∃ i, t = i + 3 := fun t late =>
    ⟨t - 3, (Nat.sub_add_cancel late).symm⟩
  have early : ∀ t, t < 3 → t = 0 ∨ t = 1 ∨ t = 2 := by
    omega
  constructor
  case wellFormed => exact PlayPath.stereoItem_wellFormed
  case quiet => exact fun _ => ⟨rfl, rfl⟩
  case offered =>
    intro t valid
    rw [accepts, path_run]
    exact oneFrame_feeds.accepts fits _ _ (oneFrame_feeds.accepted fits _ _ t) valid
  case streamed =>
    intro t
    rw [accepted_path]
    exact oneFrame_feeds.accepted_isPrefix fits _ _ t
  case parser =>
    refine ⟨3, fun t late => ?_⟩
    obtain ⟨i, rfl⟩ := later t late
    exact (oneFrame_configured i).1
  case adc =>
    intro t
    rcases Nat.lt_or_ge t 3 with first | late
    · rcases early t first with rfl | rfl | rfl <;> rfl
    · obtain ⟨i, rfl⟩ := later t late
      exact (oneFrame_configured i).2.2.1
  case before =>
    intro t first
    rcases early t first with rfl | rfl | rfl <;> rfl
  case dac =>
    intro t late
    obtain ⟨i, rfl⟩ := later t late
    exact (oneFrame_configured i).2.1
  case bps =>
    intro t late
    obtain ⟨i, rfl⟩ := later t late
    exact (oneFrame_configured i).2.2.2.1
  case fsDiv =>
    intro t late
    obtain ⟨i, rfl⟩ := later t late
    rw [(oneFrame_configured i).2.2.2.2]
    decide

theorem oneFrame_room (t : Nat) :
    PcmPlay.pcmFfAfullC (pcmView (stateAt cleared oneFrame t)) = false := by
  obtain ⟨pairs, split, lockstep⟩ := PcmPlay.lockstep_at cleared.header cleared.left
    cleared.right (pcmInputsAt cleared oneFrame) t
  have few := (oneFrame_plays.emitted_isPrefix t).length_le
  have one : PlayPath.stereoItem.frames.length = 1 := by
    decide
  rw [← written_path, split, List.length_append, one] at few
  rw [pcm_run, lockstep.afull, decide_eq_false_iff_not]
  omega

def oneFramePath (t : Nat) : PlayPath.Inputs :=
  { pathInputs (reset cleared) (oneFrame t) with pcmFfAfullC := false }

theorem oneFrame_path : pathInputsAt cleared oneFrame = oneFramePath := by
  funext t
  rw [pathInputsAt, pathInputs, oneFrame_room]
  rfl

theorem oneFrame_shown (t : Nat) :
    SramQueue.Shows (stateAt cleared oneFrame t).path.sram
        (PlayPath.abstractAt cleared.header oneFramePath t).queue ∧
      (stateAt cleared oneFrame t).path.prsr =
        (PlayPath.abstractAt cleared.header oneFramePath t).prsr := by
  have shown := PlayPath.abstractAt_shown cleared.sram cleared.header oneFrame_plays.hostQuiet t
  rw [← path_run, oneFrame_path] at shown
  exact shown

/-- All words were taken over and none is on its way. -/
structure QueueDone (t : Nat) : Prop where
  accepted : accepted cleared oneFrame t = PlayPath.stereoItem.getRaw
  unread : (PlayPath.abstractAt cleared.header oneFramePath t).queue.unread = []
  issued : (PlayPath.abstractAt cleared.header oneFramePath t).queue.issued = none
  driven : (PlayPath.abstractAt cleared.header oneFramePath t).queue.driven = none
  valid : (PlayPath.abstractAt cleared.header oneFramePath t).queue.valid = false

theorem QueueDone.drained {t : Nat} (done : QueueDone t)
    (left : (stateAt cleared oneFrame t).pcmFfLchnl.empty = true)
    (right : (stateAt cleared oneFrame t).pcmFfRchnl.empty = true)
    (idle : (stateAt cleared oneFrame t).dac.fsmPstate = .idle) :
    Drained (stateAt cleared oneFrame t) := by
  obtain ⟨shown, -⟩ := oneFrame_shown t
  have tracked1 := shown.issued
  have tracked2 := shown.driven
  rw [done.issued] at tracked1
  rw [done.driven] at tracked2
  constructor
  case sram =>
    rw [shown.empty, done.unread]
    rfl
  case left => exact left
  case right => exact right
  case issued =>
    rw [← Bool.not_eq_true]
    intro high
    rw [high] at tracked1
    cases tracked1
  case driven =>
    rw [← Bool.not_eq_true]
    intro high
    rw [high] at tracked2
    cases tracked2
  case valid => rw [shown.valid, done.valid]
  case idle => exact idle

theorem oneFrame_accepted (t : Nat) :
    accepted cleared oneFrame t =
      PlayPath.stereoItem.getRaw.take (16 * (t / 34) + min (t % 34) 16) := by
  rw [accepted_path, oneFrame_feeds.accepted (by decide)]

theorem oneFrame_queue :
    QueueDone 64 ∧ (PlayPath.abstractAt cleared.header oneFramePath 64).prsr.pcmFfWrEnOh = true ∧
      collect (fun t => (PlayPath.abstractAt cleared.header oneFramePath t).prsr.pcm.written)
        64 = [] := by
  have all : accepted cleared oneFrame 64 = PlayPath.stereoItem.getRaw := by
    rw [oneFrame_accepted]
    decide
  have queue : (PlayPath.abstractAt cleared.header oneFramePath 64).queue.unread = [] ∧
      (PlayPath.abstractAt cleared.header oneFramePath 64).queue.issued = none ∧
      (PlayPath.abstractAt cleared.header oneFramePath 64).queue.driven = none ∧
      (PlayPath.abstractAt cleared.header oneFramePath 64).queue.valid = false ∧
      (PlayPath.abstractAt cleared.header oneFramePath 64).prsr.pcmFfWrEnOh = true ∧
      collect (fun t => (PlayPath.abstractAt cleared.header oneFramePath t).prsr.pcm.written)
        64 = [] := by
    decide +kernel
  obtain ⟨unread, issued, driven, valid, prsr⟩ := queue
  exact ⟨⟨all, unread, issued, driven, valid⟩, prsr⟩

theorem oneFrame_written {t : Nat} (early : t ≤ 64) :
    PcmPlay.written cleared.header cleared.left cleared.right (pcmInputsAt cleared oneFrame) t =
      [] := by
  have none := oneFrame_queue.2.2
  rw [← @PlayPath.emitted_abstract cleared.sram, ← oneFrame_path,
    ← written_path] at none
  · have first := collect_isPrefix (fun t => (PcmPlay.stateAt cleared.header cleared.left
      cleared.right (pcmInputsAt cleared oneFrame) t).prsr.pcm.written) t (64 - t)
    rw [Nat.add_sub_of_le early, ← PcmPlay.written, none] at first
    exact List.prefix_nil.mp first
  · rw [← oneFrame_path]
    exact oneFrame_plays.hostQuiet

theorem oneFrame_rests {t : Nat} (early : t ≤ 64) :
    (stateAt cleared oneFrame t).pcmFfLchnl.empty = true ∧
      (stateAt cleared oneFrame t).pcmFfRchnl.empty = true ∧
      taken cleared oneFrame t = [] := by
  obtain ⟨pairs, split, lockstep⟩ := PcmPlay.lockstep_at cleared.header cleared.left
    cleared.right (pcmInputsAt cleared oneFrame) t
  rw [oneFrame_written early, eq_comm, List.append_eq_nil_iff] at split
  rw [← pcm_run] at lockstep
  have left := lockstep.left.empty_eq
  have right := lockstep.right.empty_eq
  rw [split.2] at left right
  exact ⟨left, right, split.1⟩

theorem oneFrame_idle {t : Nat} (early : t ≤ 64) :
    (stateAt cleared oneFrame t).dac.fsmPstate = .idle := by
  induction t with
  | zero => rfl
  | succ t ih =>
      obtain ⟨left, right, _⟩ := oneFrame_rests (t := t) (by omega)
      have valid : PcmPlay.pcmFfDacDataValidC (pcmView (stateAt cleared oneFrame t)) = false := by
        rw [PcmPlay.pcmFfDacDataValidC]
        change (!((stateAt cleared oneFrame t).pcmFfRchnl.empty ||
          (stateAt cleared oneFrame t).pcmFfLchnl.empty)) = false
        rw [left, right]
        rfl
      rw [stateAt_succ]
      simp only [step, Wm8731DrvrDac.step, Wm8731DrvrDac.nextPstate, ih (by omega), dacInputs,
        valid, oneFrame_plays.adc t, Bool.and_false, Bool.or_self, Bool.false_eq_true, reduceIte,
        ite_self]

def oneFrameCodec : Nat → State
  | 0 => reset cleared
  | t + 1 =>
      let before := oneFrameCodec t
      let prsr := (PlayPath.abstractAt cleared.header oneFramePath t).prsr
      step { before with path := { before.path with prsr := prsr } } (oneFrame t)

theorem oneFrame_codec (t : Nat) :
    (stateAt cleared oneFrame t).pcmFfLchnl = (oneFrameCodec t).pcmFfLchnl ∧
      (stateAt cleared oneFrame t).pcmFfRchnl = (oneFrameCodec t).pcmFfRchnl ∧
      (stateAt cleared oneFrame t).dac = (oneFrameCodec t).dac := by
  induction t with
  | zero => exact ⟨rfl, rfl, rfl⟩
  | succ t ih =>
      obtain ⟨left, right, dac⟩ := ih
      obtain ⟨-, prsr⟩ := oneFrame_shown t
      rw [stateAt_succ, oneFrameCodec]
      simp only [step, dacInputs, pcmView, PcmPlay.pcmFfDacDataValidC, left, right, dac, prsr,
        and_self]

theorem oneFrame_sent :
    QueueDone 640 ∧ (stateAt cleared oneFrame 640).path.prsr.pcmFfWrEnOh = false ∧
      Drained (stateAt cleared oneFrame 640) := by
  have all : accepted cleared oneFrame 640 = PlayPath.stereoItem.getRaw := by
    rw [oneFrame_accepted]
    decide
  have queue : (PlayPath.abstractAt cleared.header oneFramePath 640).queue.unread = [] ∧
      (PlayPath.abstractAt cleared.header oneFramePath 640).queue.issued = none ∧
      (PlayPath.abstractAt cleared.header oneFramePath 640).queue.driven = none ∧
      (PlayPath.abstractAt cleared.header oneFramePath 640).queue.valid = false ∧
      (PlayPath.abstractAt cleared.header oneFramePath 640).prsr.pcmFfWrEnOh = false := by
    decide +kernel
  have codec : (oneFrameCodec 640).pcmFfLchnl.empty = true ∧
      (oneFrameCodec 640).pcmFfRchnl.empty = true ∧
      (oneFrameCodec 640).dac.fsmPstate = .idle := by
    decide +kernel
  obtain ⟨unread, issued, driven, valid, noFrame⟩ := queue
  have done : QueueDone 640 := ⟨all, unread, issued, driven, valid⟩
  obtain ⟨-, prsr⟩ := oneFrame_shown 640
  obtain ⟨left, right, dac⟩ := oneFrame_codec 640
  rw [← prsr] at noFrame
  rw [← left, ← right, ← dac] at codec
  exact ⟨done, noFrame, done.drained codec.1 codec.2.1 codec.2.2⟩

theorem audioPath_plays_stereo :
    PlayPath.stereoItem.frames = [(1, 2)] ∧
      (∀ t, decoded cleared oneFrame true t <+: [onWire true (1, 2)]) ∧
      decoded cleared oneFrame true 640 = [onWire true (1, 2)] := by
  obtain ⟨done, noFrame, drained⟩ := oneFrame_sent
  obtain ⟨part, whole⟩ := audioPath_plays cleared oneFrame PlayPath.stereoItem 3 oneFrame_plays
  exact ⟨by decide, part, whole 640 done.accepted drained noFrame⟩

/-- In cycle 64 all words have been taken over, both FIFOs are empty, no read is on
its way and the serialiser is idle, but the codec has not received the frame. -/
theorem frame_at_fifo_input :
    ¬ ∀ (powerUp : PowerUp) (inputs : Nat → Inputs) (item : WavItem) (on : Nat),
      Plays powerUp inputs item on →
        (∀ t, decoded powerUp inputs item.wide t <+: item.frames.map (onWire item.wide)) ∧
          ∀ t, accepted powerUp inputs t = item.getRaw → Drained (stateAt powerUp inputs t) →
            decoded powerUp inputs item.wide t = item.frames.map (onWire item.wide) := by
  intro claim
  obtain ⟨done, -⟩ := oneFrame_queue
  obtain ⟨left, right, untaken⟩ := oneFrame_rests (Nat.le_refl 64)
  have idle := oneFrame_idle (Nat.le_refl 64)
  have drained := done.drained left right idle
  have whole :=
    (claim cleared oneFrame PlayPath.stereoItem 3 oneFrame_plays).2 64 done.accepted drained
  have shownNothing : decoded cleared oneFrame PlayPath.stereoItem.wide 64 = [] := by
    rw [dac_run] at idle
    rw [decoded_monitor, DacMonitor.frames_idle oneFrame_plays.configured idle,
      oneFrame_plays.begun_idle (oneFrame_idle (Nat.le_refl 64)), untaken]
    rfl
  rw [shownNothing] at whole
  have sizes := congrArg List.length whole
  revert sizes
  decide

end Synesthesia.AudioPath
