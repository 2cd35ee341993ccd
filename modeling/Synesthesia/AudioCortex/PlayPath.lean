/-
The file path of `acortex_top`: SRAM FIFO and WAV parser.

The parser asks for words while it is ACTIVE and the PCM FIFOs have room; a
word it asked for arrives three clocks later.
-/

import Synesthesia.AudioCortex.SramQueue
import Synesthesia.AudioCortex.WavDecode

namespace Synesthesia.PlayPath

open Synesthesia.Rtl

structure State where
  sram : SramPath.State
  prsr : WavPrsr.Regs

structure Inputs where
  avStDataId : BitVec 16
  avStValidIh : Bool
  sramMmRdEn : Bool
  sramMmWrEn : Bool
  sramMmAddr : BitVec 18
  sramMmWrData : BitVec 16
  pcmFfAfullC : Bool
  blkPrsrRdEn : Bool
  blkPrsrWrEn : Bool
  blkAddr : BitVec 8
  blkWrData : BitVec 16
  hdrRamMixed : BitVec 16

def reset (contents : BitVec 18 → BitVec 16) (header : BitVec 8 → BitVec 16) : State :=
  { sram := SramPath.reset contents
    prsr := WavPrsr.reset header }

def sramInputs (state : State) (inputs : Inputs) : SramPath.Inputs :=
  { lbStDataId := inputs.avStDataId
    lbStValidIh := inputs.avStValidIh
    lbMmRdEnIh := inputs.sramMmRdEn
    lbMmWrEnIh := inputs.sramMmWrEn
    lbMmAddrId := inputs.sramMmAddr
    lbMmWrDataId := inputs.sramMmWrData
    imRdReqIh := WavPrsr.sramRdEnOh state.prsr inputs.pcmFfAfullC }

def prsrInputs (state : State) (inputs : Inputs) : WavPrsr.Inputs :=
  { sramEmptyIh := state.sram.ff.sramEmptyOh
    sramRdDataValidIh := state.sram.arb.imRdValidOh
    sramRdDataId := SramPath.sramRdDataId state.sram
    lbRdEnIh := inputs.blkPrsrRdEn
    lbWrEnIh := inputs.blkPrsrWrEn
    lbAddrId := inputs.blkAddr
    lbWrDataId := inputs.blkWrData
    pcmFfAfullIh := inputs.pcmFfAfullC
    hdrRamMixed := inputs.hdrRamMixed }

def step (state : State) (inputs : Inputs) : State :=
  { sram := SramPath.step state.sram (sramInputs state inputs)
    prsr := WavPrsr.step state.prsr (prsrInputs state inputs) }

/-! ### The queue in place of the SRAM -/

structure Abstract where
  queue : SramQueue.Queue
  prsr : WavPrsr.Regs

def abstractReset (header : BitVec 8 → BitVec 16) : Abstract :=
  { queue := SramQueue.init
    prsr := WavPrsr.reset header }

def abstractPrsrInputs (state : Abstract) (inputs : Inputs) : WavPrsr.Inputs :=
  { sramEmptyIh := state.queue.unread.isEmpty
    sramRdDataValidIh := state.queue.valid
    sramRdDataId := state.queue.bus
    lbRdEnIh := inputs.blkPrsrRdEn
    lbWrEnIh := inputs.blkPrsrWrEn
    lbAddrId := inputs.blkAddr
    lbWrDataId := inputs.blkWrData
    pcmFfAfullIh := inputs.pcmFfAfullC
    hdrRamMixed := inputs.hdrRamMixed }

def abstractStep (state : Abstract) (inputs : Inputs) : Abstract :=
  { queue := SramQueue.step state.queue inputs.avStValidIh inputs.avStDataId
      (WavPrsr.sramRdEnOh state.prsr inputs.pcmFfAfullC)
    prsr := WavPrsr.step state.prsr (abstractPrsrInputs state inputs) }

/-! ### Runs -/

section Runs

variable (contents : BitVec 18 → BitVec 16) (header : BitVec 8 → BitVec 16)
  (inputs : Nat → Inputs)

def stateAt (t : Nat) : State := run step (reset contents header) inputs t

def abstractAt (t : Nat) : Abstract := run abstractStep (abstractReset header) inputs t

def accepted : Nat → List (BitVec 16) :=
  collect fun t =>
    strobed (SramPath.stAccept (stateAt contents header inputs t).sram
      (sramInputs (stateAt contents header inputs t) (inputs t))) (inputs t).avStDataId

def received : Nat → List (BitVec 16) :=
  collect fun t =>
    strobed (stateAt contents header inputs t).sram.arb.imRdValidOh
      (SramPath.sramRdDataId (stateAt contents header inputs t).sram)

def emitted : Nat → List (BitVec 32 × BitVec 32) :=
  collect fun t => (stateAt contents header inputs t).prsr.pcm.written

end Runs

/-- The host leaves the SRAM alone.  A 32-bit item takes in the read bus of the gaps between
its words too, and only without a host access does the bus keep its last word there. -/
def HostQuiet (inputs : Inputs) : Prop :=
  inputs.sramMmRdEn = false ∧ inputs.sramMmWrEn = false

section Refinement

variable {contents : BitVec 18 → BitVec 16} {header : BitVec 8 → BitVec 16}
  {inputs : Nat → Inputs}

/-- The path with the real SRAM and the path with the queue run in lockstep. -/
theorem abstractAt_shown (contents : BitVec 18 → BitVec 16)
    (header : BitVec 8 → BitVec 16) (quiet : ∀ t, HostQuiet (inputs t)) (t : Nat) :
    SramQueue.Shows (stateAt contents header inputs t).sram
        (abstractAt header inputs t).queue ∧
      (stateAt contents header inputs t).prsr = (abstractAt header inputs t).prsr := by
  induction t with
  | zero => exact ⟨SramQueue.shows_reset contents, rfl⟩
  | succ t ih =>
      obtain ⟨shown, same⟩ := ih
      have view : prsrInputs (stateAt contents header inputs t) (inputs t) =
          abstractPrsrInputs (abstractAt header inputs t) (inputs t) := by
        simp only [prsrInputs, abstractPrsrInputs, shown.empty, shown.valid, shown.bus]
      refine ⟨?_, ?_⟩
      · change SramQueue.Shows
          (SramPath.step _ (sramInputs (stateAt contents header inputs t) (inputs t)))
          (SramQueue.step _ _ _
            (WavPrsr.sramRdEnOh (abstractAt header inputs t).prsr (inputs t).pcmFfAfullC))
        rw [← same]
        exact SramQueue.shows_step shown (quiet t)
      · change WavPrsr.step (stateAt contents header inputs t).prsr
          (prsrInputs (stateAt contents header inputs t) (inputs t)) =
            WavPrsr.step (abstractAt header inputs t).prsr
              (abstractPrsrInputs (abstractAt header inputs t) (inputs t))
        rw [view, same]

theorem accepted_eq (contents : BitVec 18 → BitVec 16) (header : BitVec 8 → BitVec 16)
    (quiet : ∀ t, HostQuiet (inputs t)) (t : Nat) :
    accepted contents header inputs t =
      received contents header inputs t ++
        SramQueue.pending (abstractAt header inputs t).queue := by
  induction t with
  | zero => rfl
  | succ t ih =>
      obtain ⟨shown, same⟩ := abstractAt_shown contents header
        quiet t
      have moved := SramQueue.pending_step (abstractAt header inputs t).queue
        (inputs t).avStValidIh (inputs t).avStDataId
        (WavPrsr.sramRdEnOh (abstractAt header inputs t).prsr (inputs t).pcmFfAfullC)
      rw [accepted, collect_succ, ← accepted, ih, received, collect_succ, ← received,
        shown.accepts, shown.valid, shown.bus, List.append_assoc, List.append_assoc]
      exact congrArg _ moved.symm

end Refinement

end Synesthesia.PlayPath
